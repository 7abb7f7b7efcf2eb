import Puppetmaster.Hardware.Executor.Order
import Puppetmaster.Hardware.Pm.Conservation

namespace Puppetmaster.Hardware

open Library Library.Transition

-- PuppetmasterTest.bsv: mkPuppetmaster and mkFakeExecutor connected both ways.
structure ClosedLoop where
  pm : Pm
  executor : FakeExecutor

-- The methods that the connections call, and setNumPuppets, which is not called again
-- once the numbers of both sides are set.
def Pm.Label.connected : Pm.Label → Bool
  | .scheduled_get _ | .workDone_put _ | .setNumPuppets _ => true
  | _ => false

def FakeExecutor.Label.connected : FakeExecutor.Label → Bool
  | .request_put _ | .response_get _ | .setNumPuppets _ => true
  | _ => false

namespace ClosedLoop

inductive Label
  | pm (label : Pm.Label)
  | executor (label : FakeExecutor.Label)
  | scheduled (msg : ScheduleMessage)
  | workDone (msg : WorkDoneMessage)

def reset (isCompat : Bool) (main shadow : TxnFingerprint) (n : PuppetCount) : ClosedLoop where
  pm := { Pm.reset isCompat main shadow with numPuppets := n }
  executor := { FakeExecutor.reset with numPuppets := n }

def step (c : ClosedLoop) : Label → Option ClosedLoop
  | .pm label => do
      require (label.connected = false)
      let pm ← c.pm.step label
      some { c with pm := pm }
  | .executor label => do
      require (label.connected = false)
      let executor ← c.executor.step label
      some { c with executor := executor }
  -- mkConnection(puppetmaster.scheduled, executor.executor.request)
  | .scheduled msg => do
      let pm ← c.pm.step (.scheduled_get msg)
      let executor ← c.executor.step (.request_put msg)
      some { pm := pm, executor := executor }
  -- mkConnection(executor.executor.response, puppetmaster.workDone)
  | .workDone msg => do
      let executor ← c.executor.step (.response_get msg)
      let pm ← c.pm.step (.workDone_put msg)
      some { pm := pm, executor := executor }

def Label.sent : Label → Option ScheduleMessage
  | .scheduled msg => some msg
  | _ => none

def Label.answered : Label → Option WorkDoneMessage
  | .workDone msg => some msg
  | _ => none

variable {c d : ClosedLoop} {label : Label} {labels : List Label}

-- The txnIds of an active list, oldest first.
def listIds (s : Pm) (pid : PuppetId) : List TransactionId :=
  (s.puppetTxns pid).items.map fun txn => txn.fingerprint.txnId

-- A list holds what is on the way back from the executor, in it, and on the way to it.
structure Matched (c : ClosedLoop) : Prop where
  numPuppets : c.pm.numPuppets = c.executor.numPuppets
  orderly : c.executor.Orderly
  scheduled : ∀ msg ∈ c.pm.schedQ.items, c.executor.startWorkAssert msg = true
  listed : ∀ pid, listIds c.pm pid = doneFor pid c.pm.workDoneQ.items ++ c.executor.inside pid ++
    scheduledFor pid c.pm.schedQ.items

theorem Matched.reset (isCompat : Bool) (main shadow : TxnFingerprint) (n : PuppetCount) :
    Matched (ClosedLoop.reset isCompat main shadow n) where
  numPuppets := rfl
  orderly := FakeExecutor.Orderly.reset n
  scheduled _ hmsg := absurd hmsg List.not_mem_nil
  listed _ := rfl

-- The oldest work-done message names the oldest transaction of its list.
theorem Matched.head_eq {done : WorkDoneMessage} {rest : List WorkDoneMessage} (h : Matched c)
    (hdone : c.pm.workDoneQ.items = done :: rest) :
    listIds c.pm done.puppetId = done.txnId :: (doneFor done.puppetId rest ++
      c.executor.inside done.puppetId ++ scheduledFor done.puppetId c.pm.schedQ.items) := by
  rw [h.listed done.puppetId, hdone, doneFor_cons_self]
  rfl

theorem Matched.workDoneMatches (h : Matched c) {done : WorkDoneMessage}
    (hdone : c.pm.workDoneQ.first = some done) : c.pm.workDoneMatches done = true := by
  obtain ⟨rest, hdone⟩ := Fifo.first_eq_some.mp hdone
  have hhead := h.head_eq hdone
  rw [listIds] at hhead
  obtain ⟨txn, txns, hitems, htxn, -⟩ := List.map_eq_cons_iff.mp hhead
  have hfirst : (c.pm.puppetTxns done.puppetId).first = some txn :=
    Fifo.first_eq_some.mpr ⟨txns, hitems⟩
  rw [Pm.workDoneMatches, hfirst, Option.any_some, beq_iff_eq, htxn]

theorem listIds_update_self {s : Pm} {lists : PuppetId → Fifo Hashed ActivePerPuppet}
    {pid : PuppetId} {txns : Fifo Hashed ActivePerPuppet}
    (h : s.puppetTxns = Function.update lists pid txns) :
    listIds s pid = txns.items.map fun txn => txn.fingerprint.txnId := by
  rw [listIds, h, Function.update_self]

theorem listIds_update_other {s s' : Pm} {pid p : PuppetId} {txns : Fifo Hashed ActivePerPuppet}
    (h : s'.puppetTxns = Function.update s.puppetTxns pid txns) (hp : p ≠ pid) :
    listIds s' p = listIds s p := by
  rw [listIds, h, Function.update_of_ne hp, listIds]

theorem Matched.step_pm {l : Pm.Label} {pm : Pm} (h : Matched c) (hfree : l.connected = false)
    (hstep : c.pm.step l = some pm) : Matched { c with pm := pm } := by
  cases Pm.fires_of_step hstep with
  | @lookaheadStep3a txn pid qb qs qm txns hpid hfsm hcompat hbuf hmain hshadow hsched htxns =>
      refine ⟨h.numPuppets, h.orderly, fun m hm => ?_, fun p => ?_⟩
      · rw [hsched, List.mem_append, List.mem_singleton] at hm
        rcases hm with hm | rfl
        · exact h.scheduled m hm
        · exact decide_eq_true (h.numPuppets ▸ hpid)
      · have hsched' : scheduledFor p qm.items =
            scheduledFor p c.pm.schedQ.items ++ scheduledFor p [txn.message pid] := by
          rw [hsched, scheduledFor_append]
        simp only [hsched']
        by_cases hp : pid = p
        · subst hp
          have hone : scheduledFor pid [txn.message pid] = [txn.fingerprint.txnId] :=
            scheduledFor_cons_self (txn.message pid) []
          rw [listIds_update_self rfl, htxns, List.map_append, ← listIds, h.listed pid, hone,
            List.append_assoc, List.map_cons, List.map_nil]
        · have hnone : scheduledFor p [txn.message pid] = [] := scheduledFor_cons_other hp []
          rw [listIds_update_other rfl (Ne.symm hp), h.listed p, hnone, List.append_nil]
  | @clearWorkDone done txn qw txns hdone htxns =>
      refine ⟨h.numPuppets, h.orderly, h.scheduled, fun p => ?_⟩
      by_cases hp : done.puppetId = p
      · subst hp
        have hhead := h.head_eq hdone
        rw [listIds, htxns, List.map_cons] at hhead
        rw [listIds_update_self rfl]
        exact (List.cons.inj hhead).2
      · have hrest := h.listed p
        rw [hdone, doneFor_cons_other hp] at hrest
        rw [listIds_update_other rfl (Ne.symm hp), hrest]
  | setNumPuppets | scheduled_get | workDone_put => simp [Pm.Label.connected] at hfree
  | _ => exact ⟨h.numPuppets, h.orderly, h.scheduled, h.listed⟩

theorem quiet_of_not_connected {l : FakeExecutor.Label} (hfree : l.connected = false) :
    l.answered = none ∧ l.received = none ∧ l.setsNumPuppets = false := by
  cases l with
  | request_put | response_get | setNumPuppets => simp [FakeExecutor.Label.connected] at hfree
  | _ => exact ⟨rfl, rfl, rfl⟩

theorem Matched.step_executor {l : FakeExecutor.Label} {executor : FakeExecutor} (h : Matched c)
    (hfree : l.connected = false) (hstep : c.executor.step l = some executor) :
    Matched { c with executor := executor } := by
  obtain ⟨hanswered, hreceived, hnum⟩ := quiet_of_not_connected hfree
  refine ⟨h.numPuppets.trans (FakeExecutor.numPuppets_step hstep hnum).symm,
    h.orderly.step hstep hnum (by simp [hreceived]), fun m hm => ?_, fun p => ?_⟩
  · rw [FakeExecutor.startWorkAssert_step hstep hnum]
    exact h.scheduled m hm
  · have hinside := h.orderly.inside_step hstep p
    rw [hanswered, hreceived, Option.toList_none, Option.toList_none, doneFor_nil, scheduledFor_nil,
      List.nil_append, List.append_nil] at hinside
    rw [h.listed p, hinside]

theorem Matched.step_scheduled {msg : ScheduleMessage} {pm : Pm} {executor : FakeExecutor}
    (h : Matched c) (hpm : c.pm.step (.scheduled_get msg) = some pm)
    (hexec : c.executor.step (.request_put msg) = some executor) :
    Matched { pm := pm, executor := executor } := by
  cases Pm.fires_of_step hpm with
  | @scheduled_get _ qm hsched =>
      have hassert : c.executor.startWorkAssert msg = true :=
        h.scheduled msg (hsched ▸ List.mem_cons_self)
      refine ⟨h.numPuppets.trans (FakeExecutor.numPuppets_step hexec rfl).symm,
        h.orderly.step hexec rfl fun m hm => ?_, fun m hm => ?_, fun p => ?_⟩
      · obtain rfl := Option.some.inj hm
        exact hassert
      · rw [FakeExecutor.startWorkAssert_step hexec rfl]
        exact h.scheduled m (hsched ▸ List.mem_cons_of_mem _ hm)
      · have hinside : executor.inside p = c.executor.inside p ++ scheduledFor p [msg] :=
          h.orderly.inside_step hexec p
        have hsplit : c.pm.schedQ.items = [msg] ++ qm.items := hsched
        have hlist := h.listed p
        rw [hsplit, scheduledFor_append, ← List.append_assoc, List.append_assoc _ (c.executor.inside p),
          ← hinside] at hlist
        exact hlist

theorem Matched.step_workDone {msg : WorkDoneMessage} {pm : Pm} {executor : FakeExecutor}
    (h : Matched c) (hexec : c.executor.step (.response_get msg) = some executor)
    (hpm : c.pm.step (.workDone_put msg) = some pm) :
    Matched { pm := pm, executor := executor } := by
  cases Pm.fires_of_step hpm with
  | @workDone_put _ qw hdone =>
      refine ⟨h.numPuppets.trans (FakeExecutor.numPuppets_step hexec rfl).symm,
        h.orderly.step hexec rfl (fun m hm => nomatch hm), fun m hm => ?_, fun p => ?_⟩
      · rw [FakeExecutor.startWorkAssert_step hexec rfl]
        exact h.scheduled m hm
      · have hinside : doneFor p [msg] ++ executor.inside p = c.executor.inside p :=
          (h.orderly.inside_step hexec p).trans (List.append_nil _)
        simp only [hdone, doneFor_append]
        rw [List.append_assoc (doneFor p c.pm.workDoneQ.items), hinside]
        exact h.listed p

-- What each step does to the two sides.
inductive Moves (c : ClosedLoop) : Label → ClosedLoop → Prop
  | pm {l : Pm.Label} {pm : Pm} (hfree : l.connected = false) (hpm : c.pm.step l = some pm) :
      Moves c (.pm l) { c with pm := pm }
  | executor {l : FakeExecutor.Label} {executor : FakeExecutor} (hfree : l.connected = false)
      (hexec : c.executor.step l = some executor) : Moves c (.executor l) { c with executor := executor }
  | scheduled {msg : ScheduleMessage} {pm : Pm} {executor : FakeExecutor}
      (hpm : c.pm.step (.scheduled_get msg) = some pm)
      (hexec : c.executor.step (.request_put msg) = some executor) :
      Moves c (.scheduled msg) { pm := pm, executor := executor }
  | workDone {msg : WorkDoneMessage} {pm : Pm} {executor : FakeExecutor}
      (hexec : c.executor.step (.response_get msg) = some executor)
      (hpm : c.pm.step (.workDone_put msg) = some pm) :
      Moves c (.workDone msg) { pm := pm, executor := executor }

theorem moves_of_step (hstep : c.step label = some d) : Moves c label d := by
  cases label with
  | pm l =>
      simp only [ClosedLoop.step, Option.bind_eq_bind, Option.bind_eq_some_iff, require_eq_some,
        exists_const, Option.some.injEq] at hstep
      obtain ⟨hfree, pm, hpm, rfl⟩ := hstep
      exact .pm hfree hpm
  | executor l =>
      simp only [ClosedLoop.step, Option.bind_eq_bind, Option.bind_eq_some_iff, require_eq_some,
        exists_const, Option.some.injEq] at hstep
      obtain ⟨hfree, executor, hexec, rfl⟩ := hstep
      exact .executor hfree hexec
  | scheduled msg =>
      simp only [ClosedLoop.step, Option.bind_eq_bind, Option.bind_eq_some_iff,
        Option.some.injEq] at hstep
      obtain ⟨pm, hpm, executor, hexec, rfl⟩ := hstep
      exact .scheduled hpm hexec
  | workDone msg =>
      simp only [ClosedLoop.step, Option.bind_eq_bind, Option.bind_eq_some_iff,
        Option.some.injEq] at hstep
      obtain ⟨executor, hexec, pm, hpm, rfl⟩ := hstep
      exact .workDone hexec hpm

theorem Matched.step (h : Matched c) (hstep : c.step label = some d) : Matched d := by
  cases moves_of_step hstep with
  | pm hfree hpm => exact h.step_pm hfree hpm
  | executor hfree hexec => exact h.step_executor hfree hexec
  | scheduled hpm hexec => exact h.step_scheduled hpm hexec
  | workDone hexec hpm => exact h.step_workDone hexec hpm

-- The messages sent for a puppet are those answered, then those still in the executor.
def AnsweredInOrder (labels : List Label) (c : ClosedLoop) : Prop :=
  ∀ pid, scheduledFor pid (trace Label.sent labels) =
    doneFor pid (trace Label.answered labels) ++ c.executor.inside pid

theorem AnsweredInOrder.step (h : AnsweredInOrder labels c) (horderly : c.executor.Orderly)
    (hstep : c.step label = some d) : AnsweredInOrder (labels ++ [label]) d := by
  intro pid
  cases moves_of_step hstep with
  | pm hfree hpm =>
      rw [trace_snoc_none Label.sent labels rfl, trace_snoc_none Label.answered labels rfl]
      exact h pid
  | executor hfree hexec =>
      obtain ⟨hanswered, hreceived, -⟩ := quiet_of_not_connected hfree
      have hinside := horderly.inside_step hexec pid
      rw [hanswered, hreceived, Option.toList_none, Option.toList_none, doneFor_nil,
        scheduledFor_nil, List.nil_append, List.append_nil] at hinside
      rw [trace_snoc_none Label.sent labels rfl, trace_snoc_none Label.answered labels rfl, hinside]
      exact h pid
  | @scheduled msg pm executor hpm hexec =>
      have hinside : executor.inside pid = c.executor.inside pid ++ scheduledFor pid [msg] :=
        horderly.inside_step hexec pid
      rw [trace_snoc_some Label.sent labels rfl, trace_snoc_none Label.answered labels rfl,
        scheduledFor_append, h pid, hinside, List.append_assoc]
  | @workDone msg pm executor hexec hpm =>
      have hinside : doneFor pid [msg] ++ executor.inside pid = c.executor.inside pid :=
        (horderly.inside_step hexec pid).trans (List.append_nil _)
      rw [trace_snoc_none Label.sent labels rfl, trace_snoc_some Label.answered labels rfl,
        doneFor_append, h pid, ← hinside, List.append_assoc]

-- What a run of the closed loop shows: no dynamicAssert can fail, every list is what is
-- in flight and in work for its puppet, and the answers follow the schedule messages.
structure InStep (labels : List Label) (c : ClosedLoop) : Prop where
  reportDone : ∀ pid, c.executor.port = .port0 → c.executor.donePuppet = some pid →
    c.executor.reportDoneAssert pid = true
  startWork : ∀ i msg, (c.executor.puppetQ i).first = some msg →
    c.executor.startWorkAssert msg = true
  clearWorkDone : ∀ done, c.pm.workDoneQ.first = some done → c.pm.workDoneMatches done = true
  listed : ∀ pid, listIds c.pm pid =
    doneFor pid (c.pm.workDoneQ.items ++ c.executor.doneFF.items) ++ c.executor.executing pid ++
      c.executor.queued pid ++ scheduledFor pid (c.executor.schedFF.items ++ c.pm.schedQ.items)
  answered : AnsweredInOrder labels c

theorem Matched.inStep (h : Matched c) (hanswered : AnsweredInOrder labels c) :
    InStep labels c where
  reportDone pid hport hpick := h.orderly.granted hport pid (findElem_eq_some hpick)
  startWork i msg hfirst := by
    obtain ⟨rest, hitems⟩ := Fifo.first_eq_some.mp hfirst
    exact h.orderly.waiting i msg (hitems ▸ List.mem_cons_self)
  clearWorkDone done := h.workDoneMatches
  listed pid := by
    rw [h.listed pid, FakeExecutor.inside, doneFor_append, scheduledFor_append]
    simp only [List.append_assoc]
  answered := hanswered

theorem closed_loop_in_step (isCompat : Bool) (main shadow : TxnFingerprint) (n : PuppetCount)
    (labels : List Label) (c : ClosedLoop)
    (hrun : Run (Of step) (reset isCompat main shadow n) labels c) : InStep labels c := by
  have hinv := hrun.history (fun labels c => Matched c ∧ AnsweredInOrder labels c)
    ⟨Matched.reset isCompat main shadow n, fun _ => rfl⟩
    fun _ _ _ _ h hstep => ⟨h.1.step hstep, h.2.step h.1.orderly hstep⟩
  exact hinv.1.inStep hinv.2

-- Two transactions are scheduled, the second one after it was put back once, and are executed side
-- by side; the second is reported and removed first.
def loopRun : List Label :=
  (Pm.firstRun ++ Pm.arriveRun ⟨1, Pm.writesOne⟩ ++ Pm.rejectRun ⟨1, Pm.writesOne⟩ ++
    Pm.admitRun ⟨1, Pm.writesOne⟩ 1).map .pm ++
  [.scheduled ⟨7, 0⟩, .executor .fanout, .executor (.startWork 0),
    .scheduled ⟨8, 1⟩, .executor .fanout, .executor (.startWork 1),
    .executor (.endCycle fun i => i = 1), .executor (.reportDone ⟨8, 1⟩),
    .executor (.endCycle fun i => i = 0), .workDone ⟨8, 1⟩, .executor (.reportDone ⟨7, 0⟩),
    .executor (.endCycle fun _ => false), .workDone ⟨7, 0⟩,
    .pm (.clearWorkDone (Submitted.hash ⟨1, Pm.writesOne⟩) 1),
    .pm (.clearWorkDone (Submitted.hash ⟨0, Pm.writesZero⟩) 0)]

theorem closed_loop_two_rounds :
    ∃ c, Run (Of step) (reset false (hashTxn Pm.writesZero) (hashTxn Pm.writesZero) 8) loopRun c ∧
      InStep loopRun c := by
  have hexec : (exec step (reset false (hashTxn Pm.writesZero) (hashTxn Pm.writesZero) 8)
      loopRun).isSome = true := by
    decide +kernel
  obtain ⟨c, hc⟩ := Option.isSome_iff_exists.mp hexec
  exact ⟨c, run_of_exec hc, closed_loop_in_step _ _ _ _ _ c (run_of_exec hc)⟩

end ClosedLoop

end Puppetmaster.Hardware
