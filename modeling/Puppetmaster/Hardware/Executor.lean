import Puppetmaster.Hardware.Pm

namespace Puppetmaster.Hardware

open Library

-- Executor.bsv, module mkFakeExecutor

structure PuppetData where
  endTime : Timestamp
  txnId : TransactionId
  deriving DecidableEq

-- How far the accesses to the puppet registers have come in a cycle: reportDone uses
-- port 0, startWork port 1, and the requests to the arbiter read port 2.
inductive PuppetPort
  | port0 | port1
  deriving DecidableEq

structure FakeExecutor where
  numPuppets : PuppetCount
  duration : Timestamp
  cycle : Timestamp
  port : PuppetPort
  puppets : PuppetId → Option PuppetData
  schedFF : Fifo ScheduleMessage 1
  doneFF : Fifo WorkDoneMessage 1
  puppetQ : PuppetId → Fifo ScheduleMessage 16
  donePuppetArbResult : PuppetId → Bool

namespace FakeExecutor

inductive Label
  | request_put (msg : ScheduleMessage)
  | response_get (msg : WorkDoneMessage)
  | fanout
  | reportDone (msg : WorkDoneMessage)
  | startWork (i : PuppetId)
  | endCycle (grant : PuppetId → Bool)
  | setDuration (n : Timestamp)
  | setNumPuppets (n : PuppetCount)

def reset : FakeExecutor where
  numPuppets := 8
  duration := 0
  cycle := 0
  port := .port0
  puppets := fun _ => none
  schedFF := Fifo.empty
  doneFF := Fifo.empty
  puppetQ := fun _ => Fifo.empty
  donePuppetArbResult := fun _ => false

def request_put (s : FakeExecutor) (msg : ScheduleMessage) : Option FakeExecutor := do
  let schedFF ← s.schedFF.enq msg
  some { s with schedFF := schedFF }

def response_get (s : FakeExecutor) : Option (WorkDoneMessage × FakeExecutor) := do
  let (msg, doneFF) ← s.doneFF.deq
  some (msg, { s with doneFF := doneFF })

def fanout (s : FakeExecutor) : Option FakeExecutor := do
  let (msg, schedFF) ← s.schedFF.deq
  let q ← (s.puppetQ msg.puppetId).enq msg
  some { s with schedFF := schedFF, puppetQ := Function.update s.puppetQ msg.puppetId q }

def isDone (s : FakeExecutor) : Option PuppetData → Bool
  | some puppet => puppet.endTime ≤ s.cycle
  | none => false

def puppetIsDone (s : FakeExecutor) (i : PuppetId) : Bool :=
  BitVec.ofNat 5 i.val < s.numPuppets && s.isDone (s.puppets i)

def donePuppet (s : FakeExecutor) : Option PuppetId := findElem s.donePuppetArbResult

-- The condition of the dynamicAssert of reportDone. Where it fails the register gives
-- no defined value, and any txnId may be reported.
def reportDoneAssert (s : FakeExecutor) (pid : PuppetId) : Bool := (s.puppets pid).isSome

def reportDone (s : FakeExecutor) (msg : WorkDoneMessage) : Option FakeExecutor := do
  require (s.port = .port0 ∧ s.donePuppet = some msg.puppetId)
  require (∀ puppet ∈ s.puppets msg.puppetId, puppet.txnId = msg.txnId)
  let doneFF ← s.doneFF.enq msg
  some { s with
    port := .port1
    doneFF := doneFF
    puppets := Function.update s.puppets msg.puppetId none }

-- The condition of the dynamicAssert of startWork.
def startWorkAssert (s : FakeExecutor) (msg : ScheduleMessage) : Bool :=
  BitVec.ofNat 5 msg.puppetId.val < s.numPuppets

def startWork (s : FakeExecutor) (i : PuppetId) : Option FakeExecutor := do
  require (s.puppets i = none)
  let (msg, q) ← (s.puppetQ i).deq
  some { s with
    port := .port1
    puppetQ := Function.update s.puppetQ i q
    puppets := Function.update s.puppets msg.puppetId
      (some { endTime := s.cycle + s.duration, txnId := msg.txnId }) }

-- What is assumed of the arbiter: it grants nothing, or one index requested in this cycle.
def Grants (s : FakeExecutor) (grant : PuppetId → Bool) : Prop :=
  (∀ i, grant i = false) ∨ ∃ i, s.puppetIsDone i = true ∧ ∀ j, grant j = decide (j = i)

instance (s : FakeExecutor) (grant : PuppetId → Bool) : Decidable (s.Grants grant) :=
  inferInstanceAs (Decidable (_ ∨ _))

-- tick, donePuppetArbReq and pipeArbResult close a cycle.
def endCycle (s : FakeExecutor) (grant : PuppetId → Bool) : Option FakeExecutor := do
  require (s.Grants grant)
  some { s with cycle := s.cycle + 1, port := .port0, donePuppetArbResult := grant }

def setDuration (s : FakeExecutor) (n : Timestamp) : Option FakeExecutor :=
  some { s with duration := n }

def setNumPuppets (s : FakeExecutor) (n : PuppetCount) : Option FakeExecutor :=
  some { s with numPuppets := n }

def step (s : FakeExecutor) : Label → Option FakeExecutor
  | .request_put msg => s.request_put msg
  | .response_get msg => expect msg s.response_get
  | .fanout => s.fanout
  | .reportDone msg => s.reportDone msg
  | .startWork i => s.startWork i
  | .endCycle grant => s.endCycle grant
  | .setDuration n => s.setDuration n
  | .setNumPuppets n => s.setNumPuppets n

variable {s t : FakeExecutor}

-- What each rule and method requires and does.
inductive Fires (s : FakeExecutor) : Label → FakeExecutor → Prop
  | request_put {msg : ScheduleMessage} {q : Fifo ScheduleMessage 1}
      (hsched : q.items = s.schedFF.items ++ [msg]) :
      Fires s (.request_put msg) { s with schedFF := q }
  | response_get {msg : WorkDoneMessage} {q : Fifo WorkDoneMessage 1}
      (hdone : s.doneFF.items = msg :: q.items) :
      Fires s (.response_get msg) { s with doneFF := q }
  | fanout {msg : ScheduleMessage} {q : Fifo ScheduleMessage 1} {qp : Fifo ScheduleMessage 16}
      (hsched : s.schedFF.items = msg :: q.items)
      (hq : qp.items = (s.puppetQ msg.puppetId).items ++ [msg]) :
      Fires s .fanout { s with
        schedFF := q
        puppetQ := Function.update s.puppetQ msg.puppetId qp }
  | reportDone {msg : WorkDoneMessage} {q : Fifo WorkDoneMessage 1} (hport : s.port = .port0)
      (hpick : s.donePuppet = some msg.puppetId)
      (hdata : ∀ puppet ∈ s.puppets msg.puppetId, puppet.txnId = msg.txnId)
      (hdone : q.items = s.doneFF.items ++ [msg]) :
      Fires s (.reportDone msg) { s with
        port := .port1
        doneFF := q
        puppets := Function.update s.puppets msg.puppetId none }
  | startWork {i : PuppetId} {msg : ScheduleMessage} {q : Fifo ScheduleMessage 16}
      (hidle : s.puppets i = none) (hq : (s.puppetQ i).items = msg :: q.items) :
      Fires s (.startWork i) { s with
        port := .port1
        puppetQ := Function.update s.puppetQ i q
        puppets := Function.update s.puppets msg.puppetId
          (some { endTime := s.cycle + s.duration, txnId := msg.txnId }) }
  | endCycle {grant : PuppetId → Bool} (hgrant : s.Grants grant) :
      Fires s (.endCycle grant) { s with
        cycle := s.cycle + 1
        port := .port0
        donePuppetArbResult := grant }
  | setDuration {n : Timestamp} : Fires s (.setDuration n) { s with duration := n }
  | setNumPuppets {n : PuppetCount} : Fires s (.setNumPuppets n) { s with numPuppets := n }

theorem fires_of_step {label : Label} (h : s.step label = some t) : Fires s label t := by
  cases label with
  | request_put msg =>
      simp only [step, FakeExecutor.request_put, Option.bind_eq_bind, Option.bind_eq_some_iff,
        Fifo.enq_eq_some, Option.some.injEq] at h
      obtain ⟨q, hsched, rfl⟩ := h
      exact .request_put hsched
  | response_get msg =>
      simp only [step, expect_eq_some, FakeExecutor.response_get, Option.bind_eq_bind,
        Option.bind_eq_some_iff, Prod.exists, Fifo.deq_eq_some, Option.some.injEq, Prod.mk.injEq] at h
      obtain ⟨msg, q, hdone, rfl, rfl⟩ := h
      exact .response_get hdone
  | fanout =>
      simp only [step, FakeExecutor.fanout, Option.bind_eq_bind, Option.bind_eq_some_iff, Prod.exists,
        Fifo.deq_eq_some, Fifo.enq_eq_some, Option.some.injEq] at h
      obtain ⟨msg, q, hsched, qp, hq, rfl⟩ := h
      exact .fanout hsched hq
  | reportDone msg =>
      simp only [step, FakeExecutor.reportDone, Option.bind_eq_bind, Option.bind_eq_some_iff,
        require_eq_some, exists_const, Fifo.enq_eq_some, Option.some.injEq] at h
      obtain ⟨⟨hport, hpick⟩, hdata, q, hdone, rfl⟩ := h
      exact .reportDone hport hpick hdata hdone
  | startWork i =>
      simp only [step, FakeExecutor.startWork, Option.bind_eq_bind, Option.bind_eq_some_iff,
        require_eq_some, exists_const, Prod.exists, Fifo.deq_eq_some, Option.some.injEq] at h
      obtain ⟨hidle, msg, q, hq, rfl⟩ := h
      exact .startWork hidle hq
  | endCycle grant =>
      simp only [step, FakeExecutor.endCycle, Option.bind_eq_bind, Option.bind_eq_some_iff,
        require_eq_some, exists_const, Option.some.injEq] at h
      obtain ⟨hgrant, rfl⟩ := h
      exact .endCycle hgrant
  | setDuration n =>
      obtain rfl := Option.some.inj h
      exact .setDuration
  | setNumPuppets n =>
      obtain rfl := Option.some.inj h
      exact .setNumPuppets

end FakeExecutor

end Puppetmaster.Hardware
