import Puppetmaster.Hardware.Connectal.Frame
import Puppetmaster.Hardware.Connectal.Lines
import Puppetmaster.Hardware.Pm.Progress

namespace Puppetmaster.Hardware

open Library Library.Transition Runner ClosedLoop

namespace FakeExecutor

variable {s t : FakeExecutor} {label : Label}

-- What a rule does it can do.
theorem step_of_fires (h : Fires s label t) : s.step label = some t := by
  cases h with
  | request_put hsched =>
      simp only [step, FakeExecutor.request_put, Option.bind_eq_bind, Option.bind_eq_some_iff,
        Fifo.enq_eq_some, Option.some.injEq]
      exact ⟨_, hsched, rfl⟩
  | response_get hdone =>
      simp only [step, expect_eq_some, FakeExecutor.response_get, Option.bind_eq_bind,
        Option.bind_eq_some_iff, Prod.exists, Fifo.deq_eq_some, Option.some.injEq, Prod.mk.injEq]
      exact ⟨_, _, hdone, rfl, rfl⟩
  | fanout hsched hq =>
      simp only [step, FakeExecutor.fanout, Option.bind_eq_bind, Option.bind_eq_some_iff, Prod.exists,
        Fifo.deq_eq_some, Fifo.enq_eq_some, Option.some.injEq]
      exact ⟨_, _, hsched, _, hq, rfl⟩
  | reportDone hport hpick hdata hdone =>
      simp only [step, FakeExecutor.reportDone, Option.bind_eq_bind, Option.bind_eq_some_iff,
        require_eq_some, exists_const, Fifo.enq_eq_some, Option.some.injEq]
      exact ⟨⟨hport, hpick⟩, hdata, _, hdone, rfl⟩
  | startWork hidle hq =>
      simp only [step, FakeExecutor.startWork, Option.bind_eq_bind, Option.bind_eq_some_iff,
        require_eq_some, exists_const, Prod.exists, Fifo.deq_eq_some, Option.some.injEq]
      exact ⟨hidle, _, _, hq, rfl⟩
  | endCycle hgrant =>
      simp only [step, FakeExecutor.endCycle, Option.bind_eq_bind, Option.bind_eq_some_iff,
        require_eq_some, exists_const]
      exact ⟨hgrant, trivial⟩
  | setDuration => rfl
  | setNumPuppets => rfl

-- Only puppets that exist execute.
def Placed (s : FakeExecutor) : Prop :=
  ∀ i, (s.puppets i).isSome = true → BitVec.ofNat 5 i.val < s.numPuppets

theorem Placed.step (h : Placed s) (horderly : s.Orderly) (hstep : s.step label = some t)
    (hnum : label.setsNumPuppets = false) : Placed t := by
  have hsame := numPuppets_step hstep hnum
  intro i hi
  rw [hsame]
  cases fires_of_step hstep with
  | @reportDone msg q hport hpick hdata hdone =>
      by_cases hpid : i = msg.puppetId
      · subst hpid
        simp [Function.update_self] at hi
      · simp only [Function.update_of_ne hpid] at hi
        exact h i hi
  | @startWork j msg q hidle hq =>
      by_cases hpid : i = msg.puppetId
      · subst hpid
        have hhold := horderly.waiting j msg (hq ▸ List.mem_cons_self)
        exact of_decide_eq_true hhold
      · simp only [Function.update_of_ne hpid] at hi
        exact h i hi
  | _ => exact h i hi

-- The steps of what is inside to the way out.
def load (s : FakeExecutor) : ℕ :=
  5 * s.schedFF.items.length + ∑ p, (4 * (s.puppetQ p).items.length + 3 * (s.executing p).length) +
    2 * s.doneFF.items.length

-- Every rule brings something nearer to it.
theorem load_lt (horderly : s.Orderly) (hrule : label.rule = true) (hstep : s.step label = some t) :
    t.load < s.load := by
  cases fires_of_step hstep with
  | @fanout msg q qp hsched hq =>
      have hsum := sum_exchange (f := fun p => 4 * (s.puppetQ p).items.length + 3 * (s.executing p).length)
        (g := fun p => 4 * (Function.update s.puppetQ msg.puppetId qp p).items.length + 3 * (s.executing p).length)
        msg.puppetId fun p hp => by simp only [Function.update_of_ne hp]
      simp only [Function.update_self, hq, List.length_append, List.length_singleton] at hsum
      simp only [load, executing, hsched, List.length_cons] at hsum ⊢
      omega
  | @reportDone msg q hport hpick hdata hdone =>
      obtain ⟨puppet, hpuppet⟩ :=
        Option.isSome_iff_exists.mp (horderly.granted hport _ (findElem_eq_some hpick))
      have hsum := sum_exchange
        (f := fun p => 4 * (s.puppetQ p).items.length + 3 * ((s.puppets p).map PuppetData.txnId).toList.length)
        (g := fun p => 4 * (s.puppetQ p).items.length +
          3 * ((Function.update s.puppets msg.puppetId none p).map PuppetData.txnId).toList.length)
        msg.puppetId fun p hp => by simp only [Function.update_of_ne hp]
      simp only [Function.update_self, hpuppet, Option.map_some, Option.map_none, Option.toList_some,
        Option.toList_none, List.length_nil, List.length_singleton] at hsum
      simp only [load, executing, hdone, List.length_append, List.length_singleton]
      omega
  | @startWork i msg q hidle hq =>
      obtain rfl : msg.puppetId = i := horderly.owned i msg (hq ▸ List.mem_cons_self)
      have hsum := sum_exchange
        (f := fun p => 4 * (s.puppetQ p).items.length + 3 * ((s.puppets p).map PuppetData.txnId).toList.length)
        (g := fun p => 4 * (Function.update s.puppetQ msg.puppetId q p).items.length +
          3 * ((Function.update s.puppets msg.puppetId
            (some { endTime := s.cycle + s.duration, txnId := msg.txnId }) p).map PuppetData.txnId).toList.length)
        msg.puppetId fun p hp => by simp only [Function.update_of_ne hp]
      simp only [Function.update_self, hidle, hq, Option.map_some, Option.map_none, Option.toList_some,
        Option.toList_none, List.length_nil, List.length_cons] at hsum
      simp only [load, executing]
      omega
  | _ => cases hrule

-- Everything but the clock.
def still (s : FakeExecutor) : FakeExecutor :=
  { s with cycle := 0, port := .port0, donePuppetArbResult := fun _ => false }

theorem eq_of_still (h : t.still = s.still) :
    t = { s with cycle := t.cycle, port := t.port, donePuppetArbResult := t.donePuppetArbResult } := by
  simp only [still, FakeExecutor.mk.injEq] at h
  obtain ⟨hnum, hduration, -, -, hpuppets, hsched, hdone, hqueues, -⟩ := h
  rw [← hnum, ← hduration, ← hpuppets, ← hsched, ← hdone, ← hqueues]

end FakeExecutor

theorem Pm.Label.rule_of_background {label : Pm.Label} (h : label.background = true) :
    label.rule = true ∧ label.admits = false := by
  cases label <;> first | exact ⟨rfl, rfl⟩ | cases h

namespace Connectal

-- What the modules do by themselves.
def Label.own (c : Connectal) : Label → Prop
  | .pm label => label.own c.pm
  | .populate_txn _ | .transactions _ | .scheduled _ | .workDone _ | .executor _ | .endCycle _ => True
  | _ => False

abbrev Own : Connectal → Label → Connectal → Prop := Meeting step fun c label => label.own c

variable {n : PuppetCount} {c d : Connectal} {label : Label} {labels : List Label}

-- What a run from the first configuration on keeps.
structure Live (n : PuppetCount) (c : Connectal) : Prop where
  simulated : Simulated n c
  sound : c.pm.Sound
  placed : c.fakeExecutor.Placed

theorem Label.keeps_of_own (h : label.own c) : label.keeps n := by
  cases label with
  | setConfig cfg => exact absurd h id
  | _ => trivial

theorem Live.step (h : Live n c) (hkeeps : label.keeps n) (hstep : c.step label = some d) : Live n d := by
  have hframe := frame_of_step hstep
  refine ⟨h.simulated.step hkeeps hstep, ?_, ?_⟩
  · cases hlabel : label.pmLabel with
    | none => exact hframe.pm_eq hlabel ▸ h.sound
    | some l => exact h.sound.step (hframe.pm_step l hlabel)
  · have horderly := h.simulated.matched.orderly
    cases h.simulated.moves_of_step hstep with
    | @setConfig cfg =>
        have hnum : cfg.numPuppets.setWidth 5 = c.fakeExecutor.numPuppets := by
          rw [hkeeps.2.2, ← h.simulated.numPuppets]
          exact h.simulated.matched.numPuppets
        intro i hi
        simp only [Connectal.setConfig, hnum] at hi ⊢
        exact h.placed i hi
    | scheduled hpm hexec => exact h.placed.step horderly hexec rfl
    | workDone hexec hpm => exact h.placed.step horderly hexec rfl
    | @executor l executor hrule hexec =>
        refine h.placed.step horderly hexec ?_
        cases l <;> first | rfl | cases hrule
    | endCycle hexec => exact h.placed.step horderly hexec rfl
    | _ => exact h.placed

theorem Live.configured (isCompat : Bool) (main shadow : TxnFingerprint) (driver executor : TIndex)
    {cfg : TopConfig} (hcfg : Simulates n cfg) :
    Live n (configured isCompat main shadow driver executor cfg) where
  simulated := .configured isCompat main shadow driver executor hcfg
  sound := by
    have hreset := Pm.Sound.reset isCompat main shadow
    have hset : (Pm.reset isCompat main shadow).step (.setNumPuppets (cfg.numPuppets.setWidth 5)) =
        some (Connectal.configured isCompat main shadow driver executor cfg).pm := rfl
    exact hreset.step hset
  placed _ hi := absurd hi Bool.false_ne_true

theorem Live.own (h : Live n c) (hstep : Own c label d) : Live n d :=
  h.step (Label.keeps_of_own hstep.2) hstep.1

theorem Live.reaches (h : Live n c) (hreach : Reaches Own c d) : Live n d :=
  hreach.invariant (Live n) h fun _ _ _ h hstep => h.own hstep

-- The steps that are needed below, as what makes them possible.

theorem pm_step {l : Pm.Label} {pm : Pm} (hrule : l.rule = true) (hadmitted : l.admits = true → c.admitted = false)
    (hpm : c.pm.step l = some pm) :
    c.step (.pm l) = some { c with
      pm := pm
      admitted := c.admitted || l.admits
      printed := c.printed ++ c.pm.output c.cycle l } := by
  simp only [step, pmRule, Option.bind_eq_bind, Option.bind_eq_some_iff, require_eq_some, exists_const]
  exact ⟨⟨hrule, hadmitted⟩, pm, hpm, rfl⟩

theorem executor_step {l : FakeExecutor.Label} {executor : FakeExecutor} (hrule : l.rule = true)
    (hexec : c.fakeExecutor.step l = some executor) :
    c.step (.executor l) = some { c with
      fakeExecutor := executor
      printed := c.printed ++ c.fakeExecutor.output l } := by
  simp only [step, executorRule, Option.bind_eq_bind, Option.bind_eq_some_iff, require_eq_some, exists_const]
  exact ⟨hrule, executor, hexec, rfl⟩

theorem scheduled_step {msg : ScheduleMessage} {pm : Pm} {executor : FakeExecutor} (hmux : c.executorMux = 1)
    (hpm : c.pm.step (.scheduled_get msg) = some pm)
    (hexec : c.fakeExecutor.step (.request_put msg) = some executor) :
    c.step (.scheduled msg) = some { c with pm := pm, fakeExecutor := executor } := by
  have hne : ¬c.executorMux = 0 := by simp [hmux]
  simp only [step, Connectal.scheduled, request_put, if_neg hne, Option.bind_eq_bind, Option.bind_eq_some_iff]
  exact ⟨pm, hpm, executor, hexec, rfl⟩

theorem workDone_step {msg : WorkDoneMessage} {pm : Pm} {executor : FakeExecutor} (hmux : c.executorMux = 1)
    (hexec : c.fakeExecutor.step (.response_get msg) = some executor)
    (hpm : c.pm.step (.workDone_put msg) = some pm) :
    c.step (.workDone msg) = some { c with pm := pm, fakeExecutor := executor } := by
  have hne : ¬c.executorMux = 0 := by simp [hmux]
  simp only [step, Connectal.workDone, response_get, if_neg hne, Option.bind_eq_bind, Option.bind_eq_some_iff]
  exact ⟨_, ⟨executor, hexec, rfl⟩, pm, hpm, rfl⟩

theorem transactions_step {txn : Submitted} {pm : Pm} {qo : Fifo Transaction 1} (hmux : c.txnDriverMux = 1)
    (hout : c.fakeTxnDriver.outFF.items = txn.txn :: qo.items)
    (hpm : c.pm.step (.transactions_put txn) = some pm) :
    c.step (.transactions txn) = some { c with
      fakeTxnDriver := { c.fakeTxnDriver with outFF := qo }
      pm := pm } := by
  have hne : ¬c.txnDriverMux = 0 := by simp [hmux]
  simp only [step, Connectal.transactions, transactions_get, if_neg hne, Option.bind_eq_bind,
    Option.bind_eq_some_iff, expect_eq_some, Prod.exists, FakeTxnDriver.transactions_get_eq_some,
    Option.some.injEq, Prod.mk.injEq]
  exact ⟨_, ⟨_, _, ⟨qo, hout, rfl⟩, rfl, rfl⟩, pm, hpm, rfl⟩

theorem endCycle_step {grant : PuppetId → Bool} (hgrant : c.fakeExecutor.Grants grant) :
    c.step (.endCycle grant) = some { c with
      fakeTxnDriver := c.fakeTxnDriver.tick
      cycle := c.cycle + 1
      admitted := false
      fakeExecutor := { c.fakeExecutor with
        cycle := c.fakeExecutor.cycle + 1
        port := .port0
        donePuppetArbResult := grant } } := by
  simp only [step, Connectal.endCycle, Option.bind_eq_bind, Option.bind_eq_some_iff]
  exact ⟨_, FakeExecutor.step_of_fires (.endCycle hgrant), rfl⟩

-- What the Puppetmaster module can reach in the background it can reach here.
theorem reaches_pm {pm : Pm} (h : Reaches Pm.Background c.pm pm) :
    ∃ out, Reaches Own c { c with pm := pm, printed := c.printed ++ out } := by
  obtain ⟨labels, hrun⟩ := h
  induction hrun with
  | nil => exact ⟨[], by simpa using Reaches.refl Own c⟩
  | @snoc labels s t l _ hlast ih =>
      obtain ⟨out, hreach⟩ := ih
      obtain ⟨hrule, hadmits⟩ := Pm.Label.rule_of_background hlast.2.2
      let earlier : Connectal := { c with pm := s, printed := c.printed ++ out }
      have hstep : earlier.step (.pm l) = some _ := pm_step hrule (by simp [hadmits]) hlast.1
      have hown : Label.own earlier (.pm l) := hlast.2.1
      refine ⟨out ++ s.output c.cycle l, hreach.trans (.single ⟨?_, hown⟩)⟩
      rw [hstep, hadmits]
      simp [earlier]

-- The steps of what is scheduled to its removal.
def inFlight (c : Connectal) : ℕ :=
  6 * c.pm.schedQ.items.length + c.fakeExecutor.load + c.pm.workDoneQ.items.length

-- What stands still as transactions are executed and removed.
def standing (c : Connectal) : Connectal :=
  { c with
    pm := { c.pm with
      schedQ := Fifo.empty
      workDoneQ := Fifo.empty
      puppetTxns := fun _ => Fifo.empty
      numTxnScheduled := 0 }
    fakeTxnDriver := { c.fakeTxnDriver with cycle := 0, populated := false }
    cycle := 0
    admitted := false
    fakeExecutor := FakeExecutor.reset
    printed := [] }

-- Time goes by.
theorem ticks (c : Connectal) (k : ℕ) :
    ∃ d, Reaches Own c d ∧ d.standing = c.standing ∧ d.pm = c.pm ∧
      d.fakeExecutor.still = c.fakeExecutor.still ∧
      d.fakeExecutor.cycle = c.fakeExecutor.cycle + BitVec.ofNat 64 k := by
  induction k with
  | zero => exact ⟨c, .refl Own c, rfl, rfl, rfl, by simp⟩
  | succ k ih =>
      obtain ⟨d, hreach, hstanding, hpm, hstill, hcycle⟩ := ih
      have hgrants : d.fakeExecutor.Grants fun _ => false := .inl fun _ => rfl
      have hstep := endCycle_step hgrants
      refine ⟨_, hreach.trans (.single ⟨hstep, trivial⟩), hstanding, hpm, hstill, ?_⟩
      rw [hcycle, BitVec.ofNat_add, ← BitVec.add_assoc]
      rfl

theorem findElem_single (pid : PuppetId) : findElem (fun i => decide (i = pid)) = some pid := by
  revert pid
  decide

-- A puppet has its turn to report.
theorem grants (hlive : Live n c) {pid : PuppetId} {puppet : PuppetData}
    (hpuppet : c.fakeExecutor.puppets pid = some puppet) :
    ∃ d, Reaches Own c d ∧ d.standing = c.standing ∧ d.pm = c.pm ∧
      d.fakeExecutor.still = c.fakeExecutor.still ∧ d.fakeExecutor.port = .port0 ∧
      d.fakeExecutor.donePuppet = some pid := by
  obtain ⟨d, hreach, hstanding, hpm, hstill, hcycle⟩ :=
    ticks c (puppet.endTime - c.fakeExecutor.cycle).toNat
  have hend : d.fakeExecutor.cycle = puppet.endTime := by
    rw [hcycle, BitVec.ofNat_toNat, BitVec.setWidth_eq, BitVec.add_comm, BitVec.sub_add_cancel]
  have hplaced := hlive.placed pid (by rw [hpuppet]; rfl)
  have hisDone : d.fakeExecutor.puppetIsDone pid = true := by
    rw [FakeExecutor.puppetIsDone, FakeExecutor.isDone.eq_def, hend, FakeExecutor.eq_of_still hstill]
    simp [hplaced, hpuppet]
  have hgrants : d.fakeExecutor.Grants fun i => decide (i = pid) := .inr ⟨pid, hisDone, fun _ => rfl⟩
  have hstep := endCycle_step hgrants
  exact ⟨_, hreach.trans (.single ⟨hstep, trivial⟩), hstanding, hpm, hstill, rfl, findElem_single pid⟩

theorem executes {l : FakeExecutor.Label} {executor : FakeExecutor} (hlive : Live n c) (hrule : l.rule = true)
    (hfires : FakeExecutor.Fires c.fakeExecutor l executor) :
    ∃ d, Reaches Own c d ∧ d.standing = c.standing ∧ d.inFlight < c.inFlight := by
  have hexec := FakeExecutor.step_of_fires hfires
  have hless : executor.load < c.fakeExecutor.load :=
    FakeExecutor.load_lt hlive.simulated.matched.orderly hrule hexec
  refine ⟨_, .single ⟨executor_step hrule hexec, trivial⟩, rfl, ?_⟩
  simp only [inFlight]
  omega

-- What is executed comes to its end.
theorem reports (hlive : Live n c) {pid : PuppetId} {puppet : PuppetData}
    (hpuppet : c.fakeExecutor.puppets pid = some puppet) (hdone : c.fakeExecutor.doneFF.items = []) :
    ∃ d, Reaches Own c d ∧ d.standing = c.standing ∧ d.inFlight < c.inFlight := by
  obtain ⟨d, hreach, hstanding, hpm, hstill, hport, hpick⟩ := grants hlive hpuppet
  have hsame := FakeExecutor.eq_of_still hstill
  have hload : d.fakeExecutor.load = c.fakeExecutor.load := by rw [hsame]; rfl
  have hempty : d.fakeExecutor.doneFF.items = [] := by rw [hsame]; exact hdone
  have hfound : d.fakeExecutor.puppets pid = some puppet := by rw [hsame]; exact hpuppet
  obtain ⟨q, hq⟩ := Fifo.exists_enq (q := d.fakeExecutor.doneFF) (by simp [hempty])
    (⟨puppet.txnId, pid⟩ : WorkDoneMessage)
  have hdata : ∀ found ∈ d.fakeExecutor.puppets pid, found.txnId = puppet.txnId := by
    intro found hmem
    rw [hfound] at hmem
    rw [Option.some.inj hmem]
  have hfires : FakeExecutor.Fires d.fakeExecutor (.reportDone ⟨puppet.txnId, pid⟩) _ :=
    .reportDone hport hpick hdata hq
  obtain ⟨e, hmore, hstanding', hless⟩ := executes (hlive.reaches hreach) rfl hfires
  refine ⟨e, hreach.trans hmore, hstanding'.trans hstanding, ?_⟩
  have hflight : d.inFlight = c.inFlight := by rw [inFlight, inFlight, hload, hpm]
  rwa [← hflight]

theorem removes (hlive : Live n c) {done : WorkDoneMessage} {rest : List WorkDoneMessage}
    (hworkDone : c.pm.workDoneQ.items = done :: rest) :
    ∃ d, Reaches Own c d ∧ d.standing = c.standing ∧ d.inFlight < c.inFlight := by
  obtain ⟨qw, hqw⟩ := Fifo.exists_deq hworkDone
  have hhead := hlive.simulated.matched.head_eq hworkDone
  obtain ⟨txn, txns, hitems, -⟩ := List.map_eq_cons_iff.mp hhead
  obtain ⟨qt, hqt⟩ := Fifo.exists_deq hitems
  have hfires : Pm.Fires c.pm (.clearWorkDone txn done.puppetId) _ :=
    .clearWorkDone (hqw ▸ hworkDone) (hqt ▸ hitems)
  have hstep := pm_step (c := c) rfl (fun hadmits => by cases hadmits) (Pm.step_of_fires hfires (by simp))
  refine ⟨_, .single ⟨hstep, Pm.own_of_quiet rfl rfl trivial⟩, rfl, ?_⟩
  simp only [inFlight, hqw, hworkDone, List.length_cons]
  omega

theorem answers (hlive : Live n c) {msg : WorkDoneMessage} {rest : List WorkDoneMessage}
    (hdone : c.fakeExecutor.doneFF.items = msg :: rest) (hworkDone : c.pm.workDoneQ.items = []) :
    ∃ d, Reaches Own c d ∧ d.standing = c.standing ∧ d.inFlight < c.inFlight := by
  obtain ⟨qd, hqd⟩ := Fifo.exists_deq hdone
  obtain ⟨qw, hqw⟩ := Fifo.exists_enq (q := c.pm.workDoneQ) (by simp [hworkDone]) msg
  have hexec : c.fakeExecutor.step (.response_get msg) = some _ :=
    FakeExecutor.step_of_fires (.response_get (hqd ▸ hdone))
  have hpm : c.pm.step (.workDone_put msg) = some _ := Pm.step_of_fires (.workDone_put hqw) (by simp)
  refine ⟨_, .single ⟨workDone_step hlive.simulated.executorMux hexec hpm, trivial⟩, rfl, ?_⟩
  simp only [inFlight, FakeExecutor.load, FakeExecutor.executing, hqd, hqw, hdone, hworkDone,
    List.length_append, List.length_cons, List.length_nil]
  omega

theorem sends (hlive : Live n c) {msg : ScheduleMessage} {rest : List ScheduleMessage}
    (hsched : c.pm.schedQ.items = msg :: rest) (hempty : c.fakeExecutor.schedFF.items = []) :
    ∃ d, Reaches Own c d ∧ d.standing = c.standing ∧ d.inFlight < c.inFlight := by
  obtain ⟨qm, hqm⟩ := Fifo.exists_deq hsched
  obtain ⟨qs, hqs⟩ := Fifo.exists_enq (q := c.fakeExecutor.schedFF) (by simp [hempty]) msg
  have hpm : c.pm.step (.scheduled_get msg) = some _ :=
    Pm.step_of_fires (.scheduled_get (hqm ▸ hsched)) (by simp)
  have hexec : c.fakeExecutor.step (.request_put msg) = some _ :=
    FakeExecutor.step_of_fires (.request_put hqs)
  refine ⟨_, .single ⟨scheduled_step hlive.simulated.executorMux hpm hexec, trivial⟩, rfl, ?_⟩
  simp only [inFlight, FakeExecutor.load, FakeExecutor.executing, hqm, hqs, hsched, hempty,
    List.length_append, List.length_cons, List.length_nil]
  omega

-- What is scheduled comes one place nearer to its removal. The places are tried from the last
-- one on, so the next place always has room.
theorem drains_step (hlive : Live n c) (hne : c.inFlight ≠ 0) :
    ∃ d, Reaches Own c d ∧ d.standing = c.standing ∧ d.inFlight < c.inFlight := by
  cases hworkDone : c.pm.workDoneQ.items with
  | cons done rest => exact removes hlive hworkDone
  | nil =>
  cases hdone : c.fakeExecutor.doneFF.items with
  | cons msg rest => exact answers hlive hdone hworkDone
  | nil =>
  by_cases hexecuting : ∃ pid, c.fakeExecutor.puppets pid ≠ none
  · obtain ⟨pid, hpuppet⟩ := hexecuting
    obtain ⟨puppet, hpuppet⟩ := Option.ne_none_iff_exists'.mp hpuppet
    exact reports hlive hpuppet hdone
  have hidle : ∀ pid, c.fakeExecutor.puppets pid = none := fun pid => not_not.mp fun h => hexecuting ⟨pid, h⟩
  by_cases hqueued : ∃ pid, (c.fakeExecutor.puppetQ pid).items ≠ []
  · obtain ⟨pid, hqueue⟩ := hqueued
    obtain ⟨msg, rest, hqueue⟩ := List.exists_cons_of_ne_nil hqueue
    obtain ⟨q, hq⟩ := Fifo.exists_deq hqueue
    exact executes hlive rfl (.startWork (hidle pid) (hq ▸ hqueue))
  have hqueues : ∀ pid, (c.fakeExecutor.puppetQ pid).items = [] := fun pid => not_not.mp fun h => hqueued ⟨pid, h⟩
  cases hsched : c.fakeExecutor.schedFF.items with
  | cons msg rest =>
      obtain ⟨q, hq⟩ := Fifo.exists_deq hsched
      obtain ⟨qp, hqp⟩ := Fifo.exists_enq (q := c.fakeExecutor.puppetQ msg.puppetId) (by simp [hqueues]) msg
      exact executes hlive rfl (.fanout (hq ▸ hsched) hqp)
  | nil =>
  have hschedQ : c.pm.schedQ.items ≠ [] := by
    intro hnone
    simp [inFlight, FakeExecutor.load, FakeExecutor.executing, hnone, hsched, hqueues, hidle, hdone,
      hworkDone] at hne
  obtain ⟨msg, rest, hschedQ⟩ := List.exists_cons_of_ne_nil hschedQ
  exact sends hlive hschedQ hsched

theorem drains (hlive : Live n c) : ∃ d, Reaches Own c d ∧ (Live n d ∧ d.standing = c.standing) ∧ d.inFlight = 0 := by
  apply reaches_of_decreasing (fun d => Live n d ∧ d.standing = c.standing) (fun d => d.inFlight = 0) inFlight _
    ⟨hlive, rfl⟩
  intro d hd hne
  obtain ⟨e, hreach, hstanding, hless⟩ := drains_step hd.1 hne
  exact ⟨e, hreach, ⟨hd.1.reaches hreach, hstanding.trans hd.2⟩, hless⟩

-- No transaction is scheduled and not removed.
structure Drained (c : Connectal) : Prop where
  schedQ : c.pm.schedQ.items = []
  schedFF : c.fakeExecutor.schedFF.items = []
  queued : ∀ pid, c.fakeExecutor.queued pid = []
  executing : ∀ pid, c.fakeExecutor.executing pid = []
  doneFF : c.fakeExecutor.doneFF.items = []
  workDoneQ : c.pm.workDoneQ.items = []

theorem drained_of_inFlight (h : c.inFlight = 0) : Drained c := by
  simp only [inFlight, FakeExecutor.load, Nat.add_eq_zero_iff, Nat.mul_eq_zero, Finset.sum_eq_zero_iff,
    Finset.mem_univ, true_implies, List.length_eq_zero_iff, OfNat.ofNat_ne_zero, false_or] at h
  obtain ⟨⟨hschedQ, ⟨hschedFF, hpuppets⟩, hdoneFF⟩, hworkDoneQ⟩ := h
  exact ⟨hschedQ, hschedFF, fun pid => by rw [FakeExecutor.queued, (hpuppets pid).1, List.map_nil],
    fun pid => (hpuppets pid).2, hdoneFF, hworkDoneQ⟩

theorem Drained.lists (h : Drained c) (hmatched : c.loop.Matched) (pid : PuppetId) :
    (c.pm.puppetTxns pid).items = [] := by
  have hlisted := hmatched.listed pid
  simp only [loop, FakeExecutor.inside, h.schedQ, h.schedFF, h.queued, h.executing, h.doneFF, h.workDoneQ,
    doneFor_nil, scheduledFor_nil, List.append_nil] at hlisted
  exact List.map_eq_nil_iff.mp hlisted

-- The steps of what the host has added to a puppet.
def toGo (c : Connectal) : ℕ :=
  6 * c.fakeTxnDriver.txns.items.length + 5 * c.fakeTxnDriver.outFF.items.length + c.pm.toGo

-- What is in the executor is finished and removed, and the Puppetmaster module comes to rest.
theorem settles (hlive : Live n c) (hpos : 0 < n) (hle : n ≤ 16) :
    ∃ d, Reaches Own c d ∧ Live n d ∧ d.toGo = c.toGo ∧ d.fakeTxnDriver.started = c.fakeTxnDriver.started ∧
      d.pm.Calm ∧ Drained d := by
  have hnum := hlive.simulated.numPuppets
  obtain ⟨pm, hrests, ⟨-, hkeeps⟩, hrested⟩ :=
    Pm.reaches_rested hlive.sound (hnum ▸ hpos) (hnum ▸ hle)
  obtain ⟨out, hreach⟩ := reaches_pm hrests
  obtain ⟨d, hmore, ⟨hliveEnd, hstanding⟩, hempty⟩ := drains (hlive.reaches hreach)
  have hpmGo : pm.toGo = c.pm.toGo := eq_of_view hkeeps.outside Pm.toGo fun _ => rfl
  have hgo := eq_of_view hstanding toGo fun _ => rfl
  have hstarted := eq_of_view hstanding (fun c => c.fakeTxnDriver.started) fun _ => rfl
  have hrestedEnd : d.pm.Rested := by
    have hstate := eq_of_view hstanding (fun c => c.pm.state) fun _ => rfl
    have hcomplete := eq_of_view hstanding (fun c => c.pm.shadowComplete) fun _ => rfl
    have hshadowQ := eq_of_view hstanding (fun c => c.pm.shadowQ) fun _ => rfl
    have hmain := eq_of_view hstanding (fun c => c.pm.mainSummary) fun _ => rfl
    have hshadow := eq_of_view hstanding (fun c => c.pm.shadowSummary) fun _ => rfl
    exact ⟨hstate.trans hrested.normal, hcomplete.trans hrested.complete, hshadowQ ▸ hrested.shadowQ,
      hmain ▸ hrested.main, hshadow ▸ hrested.shadow⟩
  have hdrained := drained_of_inFlight hempty
  refine ⟨d, hreach.trans hmore, hliveEnd, ?_, hstarted, ⟨hliveEnd.sound, hrestedEnd, hdrained.schedQ,
    hdrained.lists hliveEnd.simulated.matched, ?_⟩, hdrained⟩
  · rw [hgo, toGo, toGo, hpmGo]
  · rw [hliveEnd.simulated.numPuppets]
    exact hpos

theorem started_step (hstep : c.step label = some d) (h : Live n c) (hstarted : c.fakeTxnDriver.started = true) :
    d.fakeTxnDriver.started = true := by
  cases h.simulated.moves_of_step hstep with
  | triggerDriver => rfl
  | _ => exact hstarted

theorem started_reaches (hreach : Reaches Own c d) (h : Live n c) (hstarted : c.fakeTxnDriver.started = true) :
    d.fakeTxnDriver.started = true := by
  refine (hreach.invariant (fun d => Live n d ∧ d.fakeTxnDriver.started = true) ⟨h, hstarted⟩ ?_).2
  exact fun _ _ _ h hstep => ⟨h.1.own hstep, started_step hstep.1 h.1 h.2⟩

-- A transaction of the Puppetmaster module comes nearer to a puppet.
theorem advances_pm (hcalm : c.pm.Calm) (hle : c.pm.numPuppets ≤ 16) (hgo : c.pm.toGo ≠ 0) :
    ∃ d, Reaches Own c d ∧ d.toGo < c.toGo := by
  obtain ⟨pm, hadvances, -, hless | ⟨hsame, hready⟩⟩ := hcalm.advances hle hgo
  · obtain ⟨out, hreach⟩ := reaches_pm hadvances
    refine ⟨_, hreach, ?_⟩
    simp only [toGo]
    omega
  · obtain ⟨out, hreach⟩ := reaches_pm hadvances
    obtain ⟨txn, pm', hstep, hless⟩ := hready.admits
    let ready : Connectal := { c with pm := pm, printed := c.printed ++ out }
    have hgrants : ready.fakeExecutor.Grants fun _ => false := .inl fun _ => rfl
    have htick := endCycle_step hgrants
    have hown : Pm.Label.own pm (.lookaheadStep3a txn 0) := Pm.own_of_quiet rfl rfl trivial
    refine ⟨_, (hreach.trans (.single ⟨htick, trivial⟩)).trans (.single ⟨pm_step rfl (fun _ => rfl) hstep, hown⟩), ?_⟩
    simp only [toGo, FakeTxnDriver.tick, ready]
    omega

-- The driver hands over a transaction.
theorem delivers (hlive : Live n c) {txn : Transaction} {rest : List Transaction}
    (hout : c.fakeTxnDriver.outFF.items = txn :: rest) (hempty : c.pm.toGo = 0) :
    ∃ d, Reaches Own c d ∧ d.toGo < c.toGo := by
  obtain ⟨qo, hqo⟩ := Fifo.exists_deq hout
  have hin : c.pm.hasherIn.items = [] := by
    rw [Pm.toGo] at hempty
    exact List.length_eq_zero_iff.mp (by omega)
  obtain ⟨qi, hqi⟩ := Fifo.exists_enq (q := c.pm.hasherIn) (by simp [hin]) (⟨c.pm.accepted, txn⟩ : Submitted)
  have hpm : c.pm.step (.transactions_put ⟨c.pm.accepted, txn⟩) = some _ :=
    Pm.step_of_fires (.transactions_put rfl hqi) (by simp)
  refine ⟨_, .single ⟨transactions_step hlive.simulated.driverMux (hqo ▸ hout) hpm, trivial⟩, ?_⟩
  simp only [toGo, Pm.toGo, hqi, hqo, hout, List.length_append, List.length_cons, List.length_nil]
  omega

theorem waits_step (hstarted : c.fakeTxnDriver.started = true) (hpopulated : c.fakeTxnDriver.populated = false)
    (hwait : ¬c.fakeTxnDriver.totalWaitTime ≤ c.fakeTxnDriver.waitTimer) :
    ∃ d, c.step (.populate_txn none) = some d ∧ d.pm = c.pm ∧ d.fakeTxnDriver = { c.fakeTxnDriver with
      populated := true
      waitTimer := c.fakeTxnDriver.waitTimer + 1 } := by
  simp only [step, Connectal.populate_txn, expect_eq_some, FakeTxnDriver.populate_txn, if_neg hwait,
    Option.bind_eq_bind, Option.bind_eq_some_iff, require_eq_some, exists_const]
  exact ⟨_, ⟨_, ⟨⟨hstarted, hpopulated⟩, rfl⟩, rfl⟩, rfl, rfl⟩

theorem submits_step {txn : Transaction} {qt : Fifo Transaction FakeTxnBRAMSize} {qo : Fifo Transaction 1}
    (hstarted : c.fakeTxnDriver.started = true) (hpopulated : c.fakeTxnDriver.populated = false)
    (hwait : c.fakeTxnDriver.totalWaitTime ≤ c.fakeTxnDriver.waitTimer)
    (htxns : c.fakeTxnDriver.txns.items = txn :: qt.items)
    (hout : qo.items = c.fakeTxnDriver.outFF.items ++ [txn]) :
    ∃ d, c.step (.populate_txn (some txn)) = some d ∧ d.pm = c.pm ∧ d.fakeTxnDriver.txns = qt ∧
      d.fakeTxnDriver.outFF = qo := by
  simp only [step, Connectal.populate_txn, expect_eq_some, FakeTxnDriver.populate_txn, if_pos hwait,
    Option.bind_eq_bind, Option.bind_eq_some_iff, require_eq_some, exists_const, Prod.exists,
    Fifo.deq_eq_some, Fifo.enq_eq_some, Option.some.injEq, Prod.mk.injEq]
  exact ⟨_, ⟨_, ⟨⟨hstarted, hpopulated⟩, txn, qt, htxns, qo, hout, rfl, rfl⟩, rfl⟩, rfl, rfl, rfl⟩

-- What the driver holds while it waits.
structure OnHold (c d : Connectal) : Prop where
  pm : d.pm = c.pm
  txns : d.fakeTxnDriver.txns = c.fakeTxnDriver.txns
  outFF : d.fakeTxnDriver.outFF = c.fakeTxnDriver.outFF
  started : d.fakeTxnDriver.started = true
  populated : d.fakeTxnDriver.populated = false

theorem begins_hold (hstarted : c.fakeTxnDriver.started = true) : ∃ d, Reaches Own c d ∧ OnHold c d := by
  have hgrants : c.fakeExecutor.Grants fun _ => false := .inl fun _ => rfl
  exact ⟨_, .single ⟨endCycle_step hgrants, trivial⟩, rfl, rfl, rfl, hstarted, rfl⟩

theorem OnHold.goes_on (h : OnHold c d) (hwait : ¬d.fakeTxnDriver.totalWaitTime ≤ d.fakeTxnDriver.waitTimer) :
    ∃ e, Reaches Own d e ∧ OnHold c e ∧
      (e.fakeTxnDriver.totalWaitTime - e.fakeTxnDriver.waitTimer).toNat <
        (d.fakeTxnDriver.totalWaitTime - d.fakeTxnDriver.waitTimer).toNat := by
  obtain ⟨e, hstep, hpm, hdriver⟩ := waits_step h.started h.populated hwait
  have hgrants : e.fakeExecutor.Grants fun _ => false := .inl fun _ => rfl
  have htick := endCycle_step hgrants
  refine ⟨_, (Reaches.single ⟨hstep, trivial⟩).trans (.single ⟨htick, trivial⟩), ⟨?_, ?_, ?_, ?_, rfl⟩, ?_⟩
  · exact hpm.trans h.pm
  · simp only [FakeTxnDriver.tick, hdriver, h.txns]
  · simp only [FakeTxnDriver.tick, hdriver, h.outFF]
  · simp only [FakeTxnDriver.tick, hdriver, h.started]
  · simp only [FakeTxnDriver.tick, hdriver]
    bv_omega

theorem reaches_waited (hstarted : c.fakeTxnDriver.started = true) :
    ∃ d, Reaches Own c d ∧ OnHold c d ∧ d.fakeTxnDriver.totalWaitTime ≤ d.fakeTxnDriver.waitTimer := by
  obtain ⟨start, hstart, hhold⟩ := begins_hold hstarted
  have hwaits : ∃ d, Reaches Own start d ∧ OnHold c d ∧
      d.fakeTxnDriver.totalWaitTime ≤ d.fakeTxnDriver.waitTimer := by
    apply reaches_of_decreasing (OnHold c) (fun d => d.fakeTxnDriver.totalWaitTime ≤ d.fakeTxnDriver.waitTimer)
      (fun d => (d.fakeTxnDriver.totalWaitTime - d.fakeTxnDriver.waitTimer).toNat) _ hhold
    exact fun d hd hwait => hd.goes_on hwait
  obtain ⟨d, hreach, hend⟩ := hwaits
  exact ⟨d, hstart.trans hreach, hend⟩

-- The driver takes a transaction out of its queue once it has waited long enough.
theorem populates (hstarted : c.fakeTxnDriver.started = true)
    (htxns : c.fakeTxnDriver.txns.items ≠ []) (hout : c.fakeTxnDriver.outFF.items = []) :
    ∃ d, Reaches Own c d ∧ d.toGo < c.toGo := by
  obtain ⟨d, hreach, hhold, hwait⟩ := reaches_waited hstarted
  obtain ⟨txn, rest, htxns⟩ := List.exists_cons_of_ne_nil htxns
  obtain ⟨qt, hqt⟩ := Fifo.exists_deq htxns
  obtain ⟨qo, hqo⟩ := Fifo.exists_enq (q := c.fakeTxnDriver.outFF) (by simp [hout]) txn
  have hfrom : d.fakeTxnDriver.txns.items = txn :: qt.items := by rw [hhold.txns, htxns, hqt]
  have hto : qo.items = d.fakeTxnDriver.outFF.items ++ [txn] := by rw [hhold.outFF, hqo]
  obtain ⟨e, hstep, hpm, het, heo⟩ := submits_step hhold.started hhold.populated hwait hfrom hto
  refine ⟨e, hreach.trans (.single ⟨hstep, trivial⟩), ?_⟩
  simp only [toGo, hpm, het, heo, hhold.pm, hqt, hqo, htxns, List.length_append, List.length_cons,
    List.length_nil]
  omega

-- With something left to do the modules bring some transaction nearer to a puppet.
theorem advances (hlive : Live n c) (hpos : 0 < n) (hle : n ≤ 16) (hstarted : c.fakeTxnDriver.started = true)
    (hgo : c.toGo ≠ 0) : ∃ d, Reaches Own c d ∧ d.toGo < c.toGo := by
  obtain ⟨d, hreach, hliveEnd, hsame, hstarted', hcalm, -⟩ := settles hlive hpos hle
  rw [hstarted] at hstarted'
  rw [← hsame] at hgo ⊢
  have hfrom : (∃ e, Reaches Own d e ∧ e.toGo < d.toGo) → ∃ e, Reaches Own c e ∧ e.toGo < d.toGo :=
    fun ⟨e, hmore, hless⟩ => ⟨e, hreach.trans hmore, hless⟩
  apply hfrom
  by_cases hpm : d.pm.toGo = 0
  · cases hout : d.fakeTxnDriver.outFF.items with
    | cons txn rest => exact delivers hliveEnd hout hpm
    | nil =>
        refine populates hstarted' (fun htxns => hgo ?_) hout
        simp [toGo, hpm, hout, htxns]
  · exact advances_pm hcalm (hliveEnd.simulated.numPuppets ▸ hle) hpm

theorem finishes (hlive : Live n c) (hpos : 0 < n) (hle : n ≤ 16) (hstarted : c.fakeTxnDriver.started = true) :
    ∃ d, Reaches Own c d ∧ d.toGo = 0 ∧ Drained d := by
  have hreaches : ∃ d, Reaches Own c d ∧ (Live n d ∧ d.fakeTxnDriver.started = true) ∧ d.toGo = 0 := by
    apply reaches_of_decreasing (fun d => Live n d ∧ d.fakeTxnDriver.started = true) (fun d => d.toGo = 0) toGo _
      ⟨hlive, hstarted⟩
    intro d hd hgo
    obtain ⟨e, hreach, hless⟩ := advances hd.1 hpos hle hd.2 hgo
    exact ⟨e, hreach, ⟨hd.1.reaches hreach, started_reaches hreach hd.1 hd.2⟩, hless⟩
  obtain ⟨d, hreach, ⟨hliveEnd, -⟩, hgo⟩ := hreaches
  obtain ⟨e, hmore, -, hsame, -, -, hdrained⟩ := settles hliveEnd hpos hle
  exact ⟨e, hreach.trans hmore, hsame.trans hgo, hdrained⟩

theorem OnCourse.reaches {all : List TransactionId} (h : OnCourse all c) (hlive : Live n c)
    (hreach : Reaches Own c d) : OnCourse all d := by
  refine (hreach.invariant (fun d => Live n d ∧ OnCourse all d) ⟨hlive, h⟩ ?_).2
  rintro c label d ⟨hlive, h⟩ hstep
  refine ⟨hlive.own hstep, h.step_known hlive.simulated hstep.1 ?_⟩
  have hown := hstep.2
  cases label with
  | addTransaction txn => cases hown
  | _ => rfl

-- With nothing left anywhere every transaction is removed.
theorem OnCourse.told_of_drained {all : List TransactionId} (h : OnCourse all c) (hgo : c.toGo = 0)
    (hdrained : Drained c) {txnId : TransactionId} (hmem : txnId ∈ all) : ∃ pid, c.told txnId = course pid := by
  rw [told_eq_history]
  rcases h.exists_story toNat_injective txnId with ⟨stop, hstop, hstory⟩ | ⟨hnot, -⟩
  · simp only [toGo, Pm.toGo, Nat.add_eq_zero_iff, Nat.mul_eq_zero, List.length_eq_zero_iff,
      OfNat.ofNat_ne_zero, false_or] at hgo
    obtain ⟨⟨htxns, hout⟩, ⟨⟨⟨hin, hhashed⟩, hinput⟩, hbuf⟩, hre⟩ := hgo
    cases stop with
    | removed => exact hstory
    | queued => simp [ids, htxns] at hstop
    | submitted => simp [ids, Pm.waiting, hout, hin, hhashed, hinput, hbuf, hre] at hstop
    | scheduled pid => simp [ids, hdrained.queued, hdrained.schedFF, hdrained.schedQ] at hstop
    | executing pid => simp [ids, hdrained.executing] at hstop
    | done pid => simp [ids, hdrained.workDoneQ, hdrained.doneFF] at hstop
  · exact absurd hmem hnot

section

variable {isCompat : Bool} {main shadow : TxnFingerprint} {driver executor : TIndex} {cfg : TopConfig}

-- No state is a dead end: once the driver is triggered, the modules can bring everything that the
-- host has added to its removal.
theorem no_dead_end (hcfg : Simulates n cfg) (hpos : 0 < n) (hle : n ≤ 16)
    (hrun : Run (Keeping n) (Connectal.configured isCompat main shadow driver executor cfg) labels c)
    (hdistinct : (trace Label.added labels).Nodup) (hstarted : c.fakeTxnDriver.started = true) :
    ∃ more d, Run Own c more d ∧ ∀ txnId ∈ trace Label.added labels, ∃ pid, d.told txnId = course pid := by
  have hlive : Live n c := hrun.invariant (Live n) (Live.configured isCompat main shadow driver executor hcfg)
    fun _ _ _ h hstep => h.step hstep.2 hstep.1
  obtain ⟨d, ⟨more, hmore⟩, hgo, hdrained⟩ := finishes hlive hpos hle hstarted
  have hcourse := (OnCourse.run hcfg hrun hdistinct).reaches hlive ⟨more, hmore⟩
  exact ⟨more, d, hmore, fun txnId hmem => hcourse.told_of_drained hgo hdrained hmem⟩

end

-- From a state with one transaction at work and one that has not left the driver.

def startedRun : List Label :=
  [.addTransaction Pm.writesZero, .addTransaction Pm.writesOne, .triggerDriver, .pm .mainFinish,
    .pm .shadowFinish] ++ deliverRun ⟨0, Pm.writesZero⟩ ++ scheduleRun ⟨0, Pm.writesZero⟩ 0

theorem no_dead_end_started : ∃ c, Run (Keeping 8) configuredState startedRun c ∧
    ∃ more d, Run Own c more d ∧ ∀ txnId ∈ trace Label.added startedRun, ∃ pid, d.told txnId = course pid := by
  have hexec : (exec (guarded step fun _ label => label.keeps 8) configuredState startedRun).any
      (fun c => c.fakeTxnDriver.started) = true := by
    decide +kernel
  obtain ⟨c, hc, hstarted⟩ := (Option.any_eq_true _ _).mp hexec
  have hrun := run_meeting_of_exec hc
  exact ⟨c, hrun, no_dead_end simulates_simulatedConfig (by decide) (by decide) hrun (by decide) hstarted⟩

end Connectal

end Puppetmaster.Hardware
