import Puppetmaster.Hardware.Pm.Lookahead

namespace Puppetmaster.Hardware.Pm

open Library Library.Transition

variable {s t u : Pm} {label : Label} {labels : List Label}

-- What a rule does it can do. Step 3.a takes the puppet from the arbiter, which is not said there.
theorem step_of_fires (h : Fires s label t) (hlabel : ∀ txn pid, label ≠ .lookaheadStep3a txn pid) :
    s.step label = some t := by
  cases h with
  | transactions_put hserial hin =>
      simp only [step, Pm.transactions_put, Option.bind_eq_bind, Option.bind_eq_some_iff, require_eq_some,
        exists_const, Fifo.enq_eq_some, Option.some.injEq]
      exact ⟨hserial, _, hin, rfl⟩
  | doHash hin hout =>
      simp only [step, Pm.doHash, Option.bind_eq_bind, Option.bind_eq_some_iff, Prod.exists,
        Fifo.deq_eq_some, Fifo.enq_eq_some, Option.some.injEq]
      exact ⟨_, _, hin, _, hout, rfl⟩
  | hasherToInputQ hout hin =>
      simp only [step, Pm.hasherToInputQ, Option.bind_eq_bind, Option.bind_eq_some_iff, Prod.exists,
        Fifo.deq_eq_some, Fifo.enq_eq_some, Option.some.injEq]
      exact ⟨_, _, hout, _, hin, rfl⟩
  | drainReinsert hstate hre hbuf =>
      have hne : s.lookaheadReinsert.notEmpty = true := by simp [Fifo.notEmpty, hre]
      simp only [step, Pm.drainInput, hne, if_true, Option.bind_eq_bind, Option.bind_eq_some_iff,
        require_eq_some, exists_const, Prod.exists, Fifo.deq_eq_some, Fifo.enq_eq_some, Option.some.injEq]
      exact ⟨hstate, _, _, hre, _, hbuf, rfl⟩
  | drainNew hstate hre hin hbuf =>
      have hempty : ¬s.lookaheadReinsert.notEmpty = true := by simp [Fifo.notEmpty, hre]
      simp only [step, Pm.drainInput, if_neg hempty, Option.bind_eq_bind, Option.bind_eq_some_iff,
        require_eq_some, exists_const, Prod.exists, Fifo.deq_eq_some, Fifo.enq_eq_some, Option.some.injEq]
      exact ⟨hstate, _, _, hin, _, hbuf, rfl⟩
  | pipePuppetArbResult => rfl
  | drainLookahead hpred hstate hfsm hbuf hmain =>
      have hne : s.lookaheadBuffer.notEmpty = true := by simp [Fifo.notEmpty, hbuf]
      simp only [step, expect_eq_some, Pm.drainLookahead, Option.bind_eq_bind, Option.bind_eq_some_iff,
        require_eq_some, exists_const, Fifo.first_eq_some, AtomicSummary.checks_request_put_eq_some,
        Option.some.injEq, Prod.mk.injEq]
      exact ⟨⟨⟨hne, hpred⟩, hstate⟩, hfsm, _, ⟨_, hbuf⟩, _, ⟨hmain, rfl⟩, rfl, rfl⟩
  | lookaheadStep2 hpred hfsm hmain =>
      simp only [step, Pm.lookaheadStep2, Option.bind_eq_bind, Option.bind_eq_some_iff, require_eq_some,
        exists_const, Prod.exists, AtomicSummary.checks_response_get_eq_some, Option.some.injEq]
      exact ⟨⟨hpred, hfsm⟩, _, _, ⟨hmain, rfl, rfl⟩, rfl⟩
  | lookaheadStep3a => exact absurd rfl (hlabel _ _)
  | lookaheadStep3b hpred hfsm hcompat hbuf hre =>
      simp only [step, expect_eq_some, Pm.lookaheadStep3b, Option.bind_eq_bind, Option.bind_eq_some_iff,
        require_eq_some, exists_const, Prod.exists, Fifo.deq_eq_some, Fifo.enq_eq_some, Option.some.injEq,
        Prod.mk.injEq]
      exact ⟨⟨hpred, hfsm, hcompat⟩, _, _, hbuf, _, hre, rfl, rfl⟩
  | shadowUpdateNew hshadow hfree =>
      simp only [step, Pm.shadowUpdateNew, Option.bind_eq_bind, Option.bind_eq_some_iff, Prod.exists,
        Fifo.deq_eq_some, AtomicSummary.txns_put_eq_some, Option.some.injEq]
      exact ⟨_, _, hshadow, _, ⟨hfree, rfl⟩, rfl⟩
  | walkPut hcomplete hentry hfree =>
      simp only [step, expect_eq_some, Pm.shadowUpdateExisting, hentry, Option.bind_eq_bind,
        Option.bind_eq_some_iff, require_eq_some, exists_const, AtomicSummary.txns_put_eq_some,
        Option.some.injEq, Prod.mk.injEq]
      exact ⟨hcomplete, _, ⟨hfree, rfl⟩, trivial, rfl⟩
  | walkNext hcomplete hentry hmore =>
      simp only [step, expect_eq_some, Pm.shadowUpdateExisting, hentry, if_pos hmore, Option.bind_eq_bind,
        Option.bind_eq_some_iff, require_eq_some, exists_const]
      exact ⟨hcomplete, trivial⟩
  | walkEnd hcomplete hentry hlast =>
      simp only [step, expect_eq_some, Pm.shadowUpdateExisting, hentry, if_neg hlast, Option.bind_eq_bind,
        Option.bind_eq_some_iff, require_eq_some, exists_const]
      exact ⟨hcomplete, trivial⟩
  | clearWorkDone hdone htxns =>
      simp only [step, expect_eq_some, Pm.clearWorkDone, Option.bind_eq_bind, Option.bind_eq_some_iff,
        Prod.exists, Fifo.deq_eq_some, Option.some.injEq, Prod.mk.injEq]
      exact ⟨_, _, hdone, _, _, htxns, ⟨rfl, rfl⟩, rfl⟩
  | startRefresh hstate hfail hcomplete hshadow hmain =>
      simp only [step, Pm.startRefresh, Option.bind_eq_bind, Option.bind_eq_some_iff, require_eq_some,
        exists_const, AtomicSummary.startCopy_eq_some, Option.some.injEq]
      exact ⟨⟨hstate, hfail, hcomplete⟩, _, ⟨hshadow, rfl⟩, _, ⟨hmain, rfl⟩, rfl⟩
  | mainFinish hbusy =>
      simp only [step, Pm.mainFinish, Option.bind_eq_bind, Option.bind_eq_some_iff,
        AtomicSummary.finish_eq_some, Option.some.injEq]
      exact ⟨_, ⟨hbusy, rfl⟩, rfl⟩
  | shadowFinish hbusy =>
      simp only [step, Pm.shadowFinish, Option.bind_eq_bind, Option.bind_eq_some_iff,
        AtomicSummary.finish_eq_some, Option.some.injEq]
      exact ⟨_, ⟨hbusy, rfl⟩, rfl⟩
  | switchDone hstate hmain hshadow =>
      simp only [step, Pm.switchDone, Option.bind_eq_bind, Option.bind_eq_some_iff, require_eq_some,
        exists_const]
      exact ⟨⟨hstate, hmain, hshadow⟩, trivial⟩
  | setNumPuppets => rfl
  | scheduled_get hsched =>
      simp only [step, expect_eq_some, Pm.scheduled_get, Option.bind_eq_bind, Option.bind_eq_some_iff,
        Prod.exists, Fifo.deq_eq_some, Option.some.injEq, Prod.mk.injEq]
      exact ⟨_, _, hsched, rfl, rfl⟩
  | workDone_put hdone =>
      simp only [step, Pm.workDone_put, Option.bind_eq_bind, Option.bind_eq_some_iff, Fifo.enq_eq_some,
        Option.some.injEq]
      exact ⟨_, hdone, rfl⟩

-- The checker is busy with the question of the FSM and no other, the FSM has something to ask
-- about, and the walk has nothing to put.
structure Sound (s : Pm) : Prop where
  inLookahead : InLookahead s
  checking : s.mainSummary.state = .Checking ↔ s.lookaheadFSM = .step2
  asking : s.lookaheadFSM ≠ .idle → s.lookaheadBuffer.items ≠ []
  shadow : s.shadowSummary.state ≠ .Checking
  switching : s.state = .Switching → s.mainSummary.state ≠ .Checking
  recorded : s.recordedActiveTxnSize = fun _ => 0

theorem Sound.reset (isCompat : Bool) (main shadow : TxnFingerprint) : Sound (reset isCompat main shadow) where
  inLookahead := Nat.zero_le _
  checking := by simp [Pm.reset, AtomicSummary.reset]
  asking := absurd rfl
  shadow := by simp [Pm.reset, AtomicSummary.reset]
  switching := by simp [Pm.reset]
  recorded := rfl

theorem Sound.step (h : Sound s) (hstep : s.step label = some t) : Sound t := by
  have hin := h.inLookahead.step hstep
  have hrecorded := (recordedActiveTxnSize_step hstep).trans h.recorded
  have hchecking := h.checking
  have hasking := h.asking
  cases fires_of_step hstep with
  | drainReinsert hstate hre hbuf | drainNew hstate hre hin' hbuf =>
      exact ⟨hin, h.checking, fun _ => by simp [hbuf], h.shadow, h.switching, hrecorded⟩
  | drainLookahead hpred hstate hfsm hbuf hmain =>
      exact ⟨hin, by simp, fun _ => by simp [hbuf], h.shadow, by simp [hstate], hrecorded⟩
  | lookaheadStep2 hpred hfsm hmain =>
      exact ⟨hin, by simp, fun _ => hasking (by simp [hfsm]), h.shadow, by simp, hrecorded⟩
  | lookaheadStep3a hpid hfsm hcompat hbuf hmain =>
      exact ⟨hin, by simp, by simp, h.shadow, by simp, hrecorded⟩
  | lookaheadStep3b hpred hfsm hcompat hbuf hre =>
      have hnot : s.mainSummary.state ≠ .Checking := by simp [hchecking, hfsm]
      exact ⟨hin, by simp [hnot], by simp, h.shadow, h.switching, hrecorded⟩
  | shadowUpdateNew | walkPut => exact ⟨hin, h.checking, h.asking, by simp, h.switching, hrecorded⟩
  | startRefresh hstate hfail hcomplete hshadow hmain =>
      have hnot : s.lookaheadFSM ≠ .step2 := by simp [← hchecking, hmain]
      exact ⟨hin, by simp [hnot], h.asking, by simp, by simp, hrecorded⟩
  | mainFinish hbusy =>
      have hnot : s.lookaheadFSM ≠ .step2 := by
        rw [ne_eq, ← hchecking]
        rcases hbusy with hbusy | hbusy | hbusy <;> simp [hbusy]
      exact ⟨hin, by simp [hnot], h.asking, h.shadow, by simp, hrecorded⟩
  | shadowFinish => exact ⟨hin, h.checking, h.asking, by simp, h.switching, hrecorded⟩
  | switchDone => exact ⟨hin, h.checking, h.asking, h.shadow, by simp, hrecorded⟩
  | _ => exact ⟨hin, h.checking, h.asking, h.shadow, h.switching, hrecorded⟩

-- The arbiter grants nothing, or one puppet that is free.
def Grants (s : Pm) (grant : PuppetId → Bool) : Prop :=
  (∀ i, grant i = false) ∨ ∃ i, BitVec.ofNat 5 i.val < s.numPuppets ∧
    (s.puppetTxns i).items.length < ActivePerPuppet ∧ ∀ j, grant j = decide (j = i)

def Label.arbitrated (s : Pm) : Label → Prop
  | .pipePuppetArbResult grant => s.Grants grant
  | _ => True

-- What the module does by itself: its rules, with the answers of the filter, refreshes that copy
-- all active transactions and grants of the arbiter.
def Label.own (s : Pm) (label : Label) : Prop := Covered s label ∧ label.arbitrated s

-- No method, no admission and no removal.
def Label.background : Label → Bool
  | .transactions_put _ | .setNumPuppets _ | .scheduled_get _ | .workDone_put _ => false
  | .lookaheadStep3a _ _ | .clearWorkDone _ _ => false
  | _ => true

abbrev Background : Pm → Label → Pm → Prop :=
  Meeting step fun s label => label.own s ∧ label.background = true

theorem Sound.run (hsound : Sound s) (hrun : Run Background s labels t) :
    Sound t :=
  hrun.invariant Sound hsound fun _ _ _ h hstep => h.step hstep.1

theorem own_of_quiet (hanswer : label.answer = none) (hrefreshes : label.refreshes = false)
    (harbitrated : label.arbitrated s) : label.own s := by
  refine ⟨⟨fun answer hmem => ?_, fun h => ?_⟩, harbitrated⟩
  · rw [hanswer] at hmem
    cases hmem
  · rw [hrefreshes] at h
    cases h

-- Both summaries rest, the walk is over and no refresh is under way.
structure Rested (s : Pm) : Prop where
  normal : s.state = .Normal
  complete : s.shadowComplete = true
  shadowQ : s.shadowQ.items = []
  main : s.mainSummary.state = .Free ∨ s.mainSummary.state = .Checking
  shadow : s.shadowSummary.state = .Free

def busy (a : AtomicSummary) : ℕ := if a.state = .Free ∨ a.state = .Checking then 0 else 1

def unrest (s : Pm) : ℕ :=
  (if s.state = .Switching then 20 else 0) +
    (if s.shadowComplete = true then 0 else MaxNumPuppets - s.shadowPuppetIndex.val) +
    2 * s.shadowQ.items.length + busy s.mainSummary + busy s.shadowSummary

-- What comes to rest leaves all this as it is, and the contents of the shadow unless a
-- transaction waits to be added to it.
def outside (s : Pm) : Pm :=
  { s with
    state := .Normal
    mainSummary := { s.mainSummary with state := .Free }
    shadowSummary := { s.mainSummary with state := .Free }
    shadowQ := Fifo.empty
    shadowPuppetIndex := 0
    shadowEntryIndex := 0
    shadowComplete := true }

structure Rests (s t : Pm) : Prop where
  outside : t.outside = s.outside
  shadow : s.shadowQ.items = [] → t.shadowQ.items = [] ∧ t.shadowSummary.contents = s.shadowSummary.contents

theorem Rests.refl (s : Pm) : Rests s s := ⟨rfl, fun h => ⟨h, rfl⟩⟩

theorem Rests.trans (h : Rests s t) (h' : Rests t u) : Rests s u := by
  refine ⟨h'.outside.trans h.outside, fun hempty => ?_⟩
  obtain ⟨hempty', hcontents⟩ := h.shadow hempty
  obtain ⟨hempty'', hcontents'⟩ := h'.shadow hempty'
  exact ⟨hempty'', hcontents'.trans hcontents⟩

theorem walkEntry_eq_none (h : Sound s) : s.walkEntry = none := by
  simp [walkEntry, h.recorded]

theorem walk_goes_on {n : PuppetCount} {pid : PuppetId} (hpos : 0 < n) (hle : n ≤ 16)
    (hmore : BitVec.ofNat 5 pid.val < n - 1) : (pid + 1).val = pid.val + 1 := by
  have hpid : pid.val < 16 := pid.isLt
  have hpos : 0 < n.toNat := hpos
  have hle : n.toNat ≤ 16 := hle
  have hmore : pid.val % 32 < (32 - 1 + n.toNat) % 32 := by
    rw [BitVec.lt_def, BitVec.toNat_ofNat, BitVec.toNat_sub] at hmore
    exact hmore
  have hlt : pid.val + 1 < 16 := by omega
  rw [Fin.val_add]
  exact Nat.mod_eq_of_lt hlt

theorem busy_of_not (a : AtomicSummary) (hfree : a.state ≠ .Free) (hchecking : a.state ≠ .Checking) :
    (a.state = .Resetting ∨ a.state = .Adding ∨ a.state = .Copying) ∧ busy a = 1 := by
  refine ⟨?_, by simp [busy, hfree, hchecking]⟩
  cases h : a.state <;> simp_all

theorem rests_step (hsound : Sound s) (hpos : 0 < s.numPuppets) (hle : s.numPuppets ≤ 16) (hnot : ¬Rested s) :
    ∃ label t, Background s label t ∧ Rests s t ∧ t.unrest < s.unrest := by
  by_cases hmain : s.mainSummary.state = .Free ∨ s.mainSummary.state = .Checking
  swap
  · rw [not_or] at hmain
    obtain ⟨hbusy, hone⟩ := busy_of_not _ hmain.1 hmain.2
    refine ⟨.mainFinish, _, ⟨step_of_fires (.mainFinish hbusy) (by simp), own_of_quiet rfl rfl trivial, rfl⟩,
      ⟨rfl, fun h => ⟨h, rfl⟩⟩, ?_⟩
    have hzero : busy { s.mainSummary with state := .Free } = 0 := if_pos (Or.inl rfl)
    simp only [unrest, hone, hzero]
    omega
  by_cases hshadow : s.shadowSummary.state = .Free
  swap
  · obtain ⟨hbusy, hone⟩ := busy_of_not _ hshadow hsound.shadow
    refine ⟨.shadowFinish, _, ⟨step_of_fires (.shadowFinish hbusy) (by simp), own_of_quiet rfl rfl trivial, rfl⟩,
      ⟨rfl, fun h => ⟨h, rfl⟩⟩, ?_⟩
    have hzero : busy { s.shadowSummary with state := .Free } = 0 := if_pos (Or.inl rfl)
    simp only [unrest, hone, hzero]
    omega
  by_cases hstate : s.state = .Switching
  · have hmainFree : s.mainSummary.isFree = true :=
      decide_eq_true (hmain.resolve_right (hsound.switching hstate))
    have hfires : Fires s .switchDone _ := .switchDone hstate hmainFree (decide_eq_true hshadow)
    refine ⟨.switchDone, _, ⟨step_of_fires hfires (by simp), own_of_quiet rfl rfl trivial, rfl⟩,
      ⟨rfl, fun h => ⟨h, rfl⟩⟩, ?_⟩
    simp only [unrest, hstate, MaxNumPuppets, if_true, Bool.false_eq_true, if_false, reduceCtorEq]
    omega
  have hnormal : s.state = .Normal := by
    cases h : s.state
    · rfl
    · exact absurd h hstate
  cases hshadowQ : s.shadowQ.items with
  | cons txn rest =>
      obtain ⟨q, rfl⟩ := Fifo.exists_deq hshadowQ
      have hfires : Fires s .shadowUpdateNew _ := .shadowUpdateNew hshadowQ hshadow
      refine ⟨.shadowUpdateNew, _, ⟨step_of_fires hfires (by simp), own_of_quiet rfl rfl trivial, rfl⟩,
        ⟨rfl, fun h => ?_⟩, ?_⟩
      · rw [hshadowQ] at h
        cases h
      · have hzero : busy s.shadowSummary = 0 := if_pos (Or.inl hshadow)
        have hone : busy ⟨addAll s.shadowSummary.contents txn.fingerprint, .Adding, txn.fingerprint⟩ = 1 := rfl
        simp only [unrest, hshadowQ, List.length_cons, hzero, hone]
        omega
  | nil =>
      have hcomplete : s.shadowComplete = false := by
        by_contra hcomplete
        exact hnot ⟨hnormal, Bool.of_not_eq_false hcomplete, hshadowQ, hmain, hshadow⟩
      have hentry := walkEntry_eq_none hsound
      have hpid : s.shadowPuppetIndex.val < MaxNumPuppets := s.shadowPuppetIndex.isLt
      by_cases hmore : BitVec.ofNat 5 s.shadowPuppetIndex.val < s.numPuppets - 1
      · have hfires : Fires s (.shadowUpdateExisting none) _ := .walkNext hcomplete hentry hmore
        refine ⟨_, _, ⟨step_of_fires hfires (by simp), own_of_quiet rfl rfl trivial, rfl⟩,
          ⟨rfl, fun h => ⟨h, rfl⟩⟩, ?_⟩
        simp only [unrest, hcomplete, walk_goes_on hpos hle hmore, Bool.false_eq_true, if_false]
        omega
      · have hfires : Fires s (.shadowUpdateExisting none) _ := .walkEnd hcomplete hentry hmore
        refine ⟨_, _, ⟨step_of_fires hfires (by simp), own_of_quiet rfl rfl trivial, rfl⟩,
          ⟨rfl, fun h => ⟨h, rfl⟩⟩, ?_⟩
        simp only [unrest, hcomplete, Bool.false_eq_true, if_false, if_true]
        omega

theorem reaches_rested (hsound : Sound s) (hpos : 0 < s.numPuppets) (hle : s.numPuppets ≤ 16) :
    ∃ t, Reaches Background s t ∧ (Sound t ∧ Rests s t) ∧ Rested t := by
  apply reaches_of_decreasing (fun t => Sound t ∧ Rests s t) Rested unrest _ ⟨hsound, Rests.refl s⟩
  intro t ht hnot
  have hnum : t.numPuppets = s.numPuppets := eq_of_view ht.2.outside Pm.numPuppets fun _ => rfl
  obtain ⟨label, u, hstep, hrests, hless⟩ := rests_step ht.1 (hnum ▸ hpos) (hnum ▸ hle) hnot
  exact ⟨u, .single hstep, ⟨ht.1.step hstep.1, ht.2.trans hrests⟩, hless⟩

-- At rest, with nothing scheduled and nothing active.
structure Calm (s : Pm) : Prop where
  sound : Sound s
  rested : Rested s
  schedQ : s.schedQ.items = []
  lists : ∀ pid, (s.puppetTxns pid).items = []
  puppets : 0 < s.numPuppets

-- The steps from here to a puppet.
def toGo (s : Pm) : ℕ :=
  4 * s.hasherIn.items.length + 3 * s.hasherOut.items.length + 2 * s.inputQ.items.length +
    s.lookaheadBuffer.items.length + s.lookaheadReinsert.items.length

-- What the lookahead leaves as it is until it admits something.
structure Kept (s t : Pm) : Prop where
  toGo : t.toGo = s.toGo
  main : t.mainSummary.contents = s.mainSummary.contents
  shadow : t.shadowSummary.contents = s.shadowSummary.contents

theorem Kept.refl (s : Pm) : Kept s s := ⟨rfl, rfl, rfl⟩

theorem Kept.trans (h : Kept s t) (h' : Kept t u) : Kept s u :=
  ⟨h'.toGo.trans h.toGo, h'.main.trans h.main, h'.shadow.trans h.shadow⟩

def firstPuppet (pid : PuppetId) : Bool := decide (pid = 0)

-- The arbiter has granted the first puppet.
structure Armed (s : Pm) : Prop where
  calm : Calm s
  granted : s.puppetArbResult = firstPuppet

theorem Armed.freePuppetId (h : Armed s) : s.freePuppetId = some 0 := by
  rw [Pm.freePuppetId, h.granted]
  rfl

theorem Armed.hasFreePuppet (h : Armed s) : s.hasFreePuppet = true := by
  rw [Pm.hasFreePuppet, h.freePuppetId]
  exact decide_eq_true h.calm.puppets

theorem Calm.reaches_armed (h : Calm s) :
    ∃ t, Reaches Background s t ∧ Armed t ∧ t = { s with puppetArbResult := firstPuppet } := by
  have hgrant : s.Grants firstPuppet :=
    .inr ⟨0, h.puppets, by simp [h.lists], fun _ => rfl⟩
  have hstep : Background s (.pipePuppetArbResult firstPuppet) { s with puppetArbResult := firstPuppet } :=
    ⟨rfl, own_of_quiet rfl rfl hgrant, rfl⟩
  refine ⟨_, .single hstep, ⟨⟨h.sound.step hstep.1, ?_, h.schedQ, h.lists, h.puppets⟩, rfl⟩, rfl⟩
  exact ⟨h.rested.normal, h.rested.complete, h.rested.shadowQ, h.rested.main, h.rested.shadow⟩

-- A step of the lookahead that leaves the module at rest.
theorem Calm.step (h : Calm s) (hstep : s.step label = some t) (hstate : t.state = s.state)
    (hcomplete : t.shadowComplete = s.shadowComplete) (hshadowQ : t.shadowQ = s.shadowQ)
    (hshadow : t.shadowSummary = s.shadowSummary)
    (hmain : t.mainSummary.state = .Free ∨ t.mainSummary.state = .Checking)
    (hsched : t.schedQ = s.schedQ) (hlists : t.puppetTxns = s.puppetTxns)
    (hnum : t.numPuppets = s.numPuppets) : Calm t where
  sound := h.sound.step hstep
  rested := ⟨hstate.trans h.rested.normal, hcomplete.trans h.rested.complete, hshadowQ ▸ h.rested.shadowQ,
    hmain, hshadow ▸ h.rested.shadow⟩
  schedQ := hsched ▸ h.schedQ
  lists := hlists ▸ h.lists
  puppets := hnum ▸ h.puppets

-- What the check of the oldest transaction in the buffer comes to.
structure Asked (s t : Pm) : Prop where
  calm : Calm t
  kept : Kept s t
  failCount : t.lookaheadFailCount = s.lookaheadFailCount
  fsm : t.lookaheadFSM = .step3

theorem Armed.answers (h : Armed s) (hfsm : s.lookaheadFSM = .step2) :
    ∃ t, Reaches Background s t ∧ Asked s t ∧
      t.isCompat = AtomicSummary.verdict s.mainSummary.contents s.mainSummary.txn := by
  have hmain := h.calm.sound.checking.mpr hfsm
  have hbuf := h.calm.sound.asking (by simp [hfsm])
  have hpred : s.lookaheadPred := ⟨by simp [Fifo.notEmpty, hbuf], h.hasFreePuppet⟩
  have hfires : Fires s (.lookaheadStep2 (AtomicSummary.verdict s.mainSummary.contents s.mainSummary.txn)) _ :=
    .lookaheadStep2 hpred hfsm hmain
  have hstep := step_of_fires hfires (by simp)
  have hexact : Exact s (.lookaheadStep2 (AtomicSummary.verdict s.mainSummary.contents s.mainSummary.txn)) := by
    intro answer hanswer
    exact (Option.some.inj hanswer).symm
  refine ⟨_, .single ⟨hstep, ⟨⟨hexact, fun h => by cases h⟩, trivial⟩, rfl⟩, ⟨?_, ⟨rfl, rfl, rfl⟩, rfl, rfl⟩, rfl⟩
  exact h.calm.step hstep rfl rfl rfl rfl (.inl rfl) rfl rfl rfl

theorem Armed.asks (h : Armed s) (hfsm : s.lookaheadFSM = .idle) (hbuf : s.lookaheadBuffer.items ≠ []) :
    ∃ t, Reaches Background s t ∧ Armed t ∧ Kept s t ∧ t.lookaheadFailCount = s.lookaheadFailCount ∧
      t.lookaheadFSM = .step2 := by
  obtain ⟨txn, rest, hbuf⟩ := List.exists_cons_of_ne_nil hbuf
  have hfree : s.mainSummary.state = .Free := by
    refine h.calm.rested.main.resolve_right fun hchecking => ?_
    rw [h.calm.sound.checking, hfsm] at hchecking
    cases hchecking
  have hfires : Fires s (.drainLookahead txn) _ :=
    .drainLookahead h.hasFreePuppet h.calm.rested.normal hfsm hbuf hfree
  have hstep := step_of_fires hfires (by simp)
  have hcalm := h.calm.step hstep rfl rfl rfl rfl (.inr rfl) rfl rfl rfl
  exact ⟨_, .single ⟨hstep, own_of_quiet rfl rfl trivial, rfl⟩, ⟨hcalm, h.granted⟩, ⟨rfl, rfl, rfl⟩, rfl, rfl⟩

theorem verdict_empty (txn : TxnFingerprint) : AtomicSummary.verdict (fun _ _ => 0) txn = true := by
  rw [AtomicSummary.verdict_iff]
  intro loc _ hhit
  have hmem := hhit 0
  simp [marked] at hmem

-- The FSM gets to its third step, and with an empty filter it finds the transaction compatible.
theorem Calm.reaches_asked (h : Calm s) (hbuf : s.lookaheadBuffer.items ≠ []) :
    ∃ t, Reaches Background s t ∧ Asked s t ∧
      (s.lookaheadFSM = .idle → s.mainSummary.contents = (fun _ _ => 0) → t.isCompat = true) := by
  obtain ⟨armed, harmed, hready, rfl⟩ := h.reaches_armed
  have harms : Kept s { s with puppetArbResult := firstPuppet } := ⟨rfl, rfl, rfl⟩
  cases hfsm : s.lookaheadFSM with
  | step3 => exact ⟨s, .refl _ s, ⟨h, .refl s, rfl, hfsm⟩, by simp⟩
  | step2 =>
      obtain ⟨t, hreach, hasked, -⟩ := hready.answers hfsm
      exact ⟨t, harmed.trans hreach, ⟨hasked.calm, harms.trans hasked.kept, hasked.failCount, hasked.fsm⟩, by simp⟩
  | idle =>
      obtain ⟨t, hask, hready', hkept, hcount, hfsm'⟩ := hready.asks hfsm hbuf
      obtain ⟨u, hanswer, hasked, hverdict⟩ := hready'.answers hfsm'
      refine ⟨u, (harmed.trans hask).trans hanswer, ⟨hasked.calm, (harms.trans hkept).trans hasked.kept,
        hasked.failCount.trans hcount, hasked.fsm⟩, fun _ hempty => ?_⟩
      rw [hverdict, hkept.main, hempty]
      exact verdict_empty _

theorem drain_reinsert (h : Calm s) (hre : s.lookaheadReinsert.items ≠ []) :
    ∃ t, Reaches Background s t ∧ Calm t ∧ Kept s t ∧ t.lookaheadReinsert.items = [] ∧
      t.lookaheadBuffer.items ≠ [] ∧ t.lookaheadFSM = s.lookaheadFSM ∧ t.isCompat = s.isCompat ∧
      t.lookaheadFailCount = s.lookaheadFailCount := by
  obtain ⟨txn, rest, hre⟩ := List.exists_cons_of_ne_nil hre
  obtain ⟨qr, hqr⟩ := Fifo.exists_deq hre
  have hone := s.lookaheadReinsert.bound
  have htogether := h.sound.inLookahead
  rw [InLookahead] at htogether
  rw [hre, List.length_cons] at hone htogether
  obtain ⟨qb, hqb⟩ := Fifo.exists_enq (q := s.lookaheadBuffer) (by omega) txn
  have hfires : Fires s .drainInput _ := .drainReinsert h.rested.normal (hqr ▸ hre) hqb
  have hstep := step_of_fires hfires (by simp)
  have hnone : qr.items = [] := by
    rw [hqr]
    exact List.length_eq_zero_iff.mp (by omega)
  refine ⟨_, .single ⟨hstep, own_of_quiet rfl rfl trivial, rfl⟩,
    h.step hstep rfl rfl rfl rfl h.rested.main rfl rfl rfl, ⟨?_, rfl, rfl⟩, hnone, ?_, rfl, rfl, rfl⟩
  · simp only [toGo, hqb, hqr, hre, List.length_append, List.length_cons, List.length_nil]
    omega
  · simp [hqb]

theorem fails_of_room (h : Calm s) (hfsm : s.lookaheadFSM = .step3) (hcompat : s.isCompat = false)
    (hre : s.lookaheadReinsert.items = []) :
    ∃ t, Reaches Background s t ∧ Calm t ∧ Kept s t ∧ t.lookaheadFSM = .idle ∧
      t.lookaheadFailCount = s.lookaheadFailCount + 1 := by
  obtain ⟨armed, harmed, hready, rfl⟩ := h.reaches_armed
  obtain ⟨txn, rest, hbuf⟩ := List.exists_cons_of_ne_nil (h.sound.asking (by simp [hfsm]))
  obtain ⟨qb, hqb⟩ := Fifo.exists_deq hbuf
  obtain ⟨qr, hqr⟩ := Fifo.exists_enq (q := s.lookaheadReinsert) (by simp [hre]) txn
  have hpred : lookaheadPred { s with puppetArbResult := firstPuppet } :=
    ⟨by simp [Fifo.notEmpty, hbuf], hready.hasFreePuppet⟩
  have hfires : Fires { s with puppetArbResult := firstPuppet } (.lookaheadStep3b txn) _ :=
    .lookaheadStep3b hpred hfsm hcompat (hqb ▸ hbuf) hqr
  have hstep := step_of_fires hfires (by simp)
  refine ⟨_, harmed.trans (.single ⟨hstep, own_of_quiet rfl rfl trivial, rfl⟩),
    hready.calm.step hstep rfl rfl rfl rfl h.rested.main rfl rfl rfl, ⟨?_, rfl, rfl⟩, rfl, rfl⟩
  simp only [toGo, hqb, hqr, hbuf, List.length_append, List.length_cons, List.length_nil]
  omega

-- A transaction that conflicts goes back.
theorem Calm.fails (h : Calm s) (hfsm : s.lookaheadFSM = .step3) (hcompat : s.isCompat = false) :
    ∃ t, Reaches Background s t ∧ Calm t ∧ Kept s t ∧ t.lookaheadFSM = .idle ∧
      t.lookaheadFailCount = s.lookaheadFailCount + 1 := by
  by_cases hre : s.lookaheadReinsert.items = []
  · exact fails_of_room h hfsm hcompat hre
  · obtain ⟨t, hdrain, hcalm, hkept, hre', -, hfsm', hcompat', hcount⟩ := drain_reinsert h hre
    obtain ⟨u, hfail, hcalm', hkept', hidle, hcount'⟩ :=
      fails_of_room hcalm (hfsm'.trans hfsm) (hcompat'.trans hcompat) hre'
    exact ⟨u, hdrain.trans hfail, hcalm', hkept.trans hkept', hidle, hcount ▸ hcount'⟩

-- With an empty buffer whatever is furthest comes one place nearer.
theorem Calm.fills (h : Calm s) (hbuf : s.lookaheadBuffer.items = []) (hgo : s.toGo ≠ 0) :
    ∃ t, Reaches Background s t ∧ Calm t ∧ (t.toGo < s.toGo ∨ Kept s t ∧
      t.lookaheadFailCount = s.lookaheadFailCount ∧ t.lookaheadFSM = s.lookaheadFSM ∧
      t.lookaheadBuffer.items ≠ []) := by
  by_cases hre : s.lookaheadReinsert.items = []
  swap
  · obtain ⟨t, hreach, hcalm, hkept, -, hne, hfsm, -, hcount⟩ := drain_reinsert h hre
    exact ⟨t, hreach, hcalm, .inr ⟨hkept, hcount, hfsm, hne⟩⟩
  cases hin : s.inputQ.items with
  | cons txn rest =>
      obtain ⟨qi, hqi⟩ := Fifo.exists_deq hin
      obtain ⟨qb, hqb⟩ := Fifo.exists_enq (q := s.lookaheadBuffer) (by simp [hbuf]) txn
      have hfires : Fires s .drainInput _ := .drainNew h.rested.normal hre (hqi ▸ hin) hqb
      have hstep := step_of_fires hfires (by simp)
      refine ⟨_, .single ⟨hstep, own_of_quiet rfl rfl trivial, rfl⟩,
        h.step hstep rfl rfl rfl rfl h.rested.main rfl rfl rfl, .inl ?_⟩
      simp only [toGo, hqi, hqb, hin, hbuf, List.length_append, List.length_cons, List.length_nil]
      omega
  | nil =>
      cases hout : s.hasherOut.items with
      | cons txn rest =>
          obtain ⟨qo, hqo⟩ := Fifo.exists_deq hout
          obtain ⟨qi, hqi⟩ := Fifo.exists_enq (q := s.inputQ) (by simp [hin]) txn
          have hfires : Fires s .hasherToInputQ _ := .hasherToInputQ (hqo ▸ hout) hqi
          have hstep := step_of_fires hfires (by simp)
          refine ⟨_, .single ⟨hstep, own_of_quiet rfl rfl trivial, rfl⟩,
            h.step hstep rfl rfl rfl rfl h.rested.main rfl rfl rfl, .inl ?_⟩
          simp only [toGo, hqo, hqi, hout, hin, List.length_append, List.length_cons, List.length_nil]
          omega
      | nil =>
          have hhash : s.hasherIn.items ≠ [] := by
            intro hhash
            simp [toGo, hhash, hout, hin, hbuf, hre] at hgo
          obtain ⟨txn, rest, hhash⟩ := List.exists_cons_of_ne_nil hhash
          obtain ⟨qi, hqi⟩ := Fifo.exists_deq hhash
          obtain ⟨qo, hqo⟩ := Fifo.exists_enq (q := s.hasherOut) (by simp [hout]) txn.hash
          have hfires : Fires s .doHash _ := .doHash (hqi ▸ hhash) hqo
          have hstep := step_of_fires hfires (by simp)
          refine ⟨_, .single ⟨hstep, own_of_quiet rfl rfl trivial, rfl⟩,
            h.step hstep rfl rfl rfl rfl h.rested.main rfl rfl rfl, .inl ?_⟩
          simp only [toGo, hqi, hqo, hhash, hout, List.length_append, List.length_cons, List.length_nil]
          omega

-- A refresh leaves the shadow in the main filter and the shadow empty.
theorem Calm.refreshes (h : Calm s) (hle : s.numPuppets ≤ 16) (hfsm : s.lookaheadFSM = .idle)
    (hcount : s.lookaheadFailCount = BitVec.ofNat 2 LookaheadBufferSize) :
    ∃ t, Reaches Background s t ∧ Calm t ∧ t.toGo = s.toGo ∧ t.lookaheadFSM = .idle ∧
      t.mainSummary.contents = s.shadowSummary.contents ∧ t.shadowSummary.contents = fun _ _ => 0 := by
  have hfree : s.mainSummary.state = .Free := by
    refine h.rested.main.resolve_right fun hchecking => ?_
    rw [h.sound.checking, hfsm] at hchecking
    cases hchecking
  have hfires : Fires s .startRefresh _ :=
    .startRefresh h.rested.normal hcount h.rested.complete h.rested.shadow hfree
  have hstep := step_of_fires hfires (by simp)
  have hcovers : ShadowCovers s := fun pid txn htxn => absurd (h.lists pid ▸ htxn) List.not_mem_nil
  have hown : Label.own s .startRefresh := ⟨⟨fun _ hanswer => (by cases hanswer), fun _ => hcovers⟩, trivial⟩
  obtain ⟨t, hreach, ⟨hsound, hrests⟩, hrested⟩ := reaches_rested (h.sound.step hstep) h.puppets hle
  have hcontents := (hrests.shadow h.rested.shadowQ).2
  refine ⟨t, (Reaches.single ⟨hstep, hown, rfl⟩).trans hreach, ⟨hsound, hrested, ?_, fun pid => ?_, ?_⟩,
    ?_, ?_, ?_, hcontents⟩
  · rw [eq_of_view hrests.outside Pm.schedQ fun _ => rfl]
    exact h.schedQ
  · rw [eq_of_view hrests.outside Pm.puppetTxns fun _ => rfl]
    exact h.lists pid
  · rw [eq_of_view hrests.outside Pm.numPuppets fun _ => rfl]
    exact h.puppets
  · exact eq_of_view hrests.outside toGo fun _ => rfl
  · exact (eq_of_view hrests.outside Pm.lookaheadFSM fun _ => rfl).trans hfsm
  · exact eq_of_view hrests.outside (fun s => s.mainSummary.contents) fun _ => rfl

-- Step 3.a has all it needs.
structure Ready (s : Pm) : Prop where
  armed : Armed s
  fsm : s.lookaheadFSM = .step3
  compat : s.isCompat = true

theorem Ready.admits (h : Ready s) : ∃ txn t, s.step (.lookaheadStep3a txn 0) = some t ∧ t.toGo < s.toGo := by
  have hcalm := h.armed.calm
  have hbuf := hcalm.sound.asking (by simp [h.fsm])
  have hpred : s.lookaheadPred := ⟨by simp [Fifo.notEmpty, hbuf], h.armed.hasFreePuppet⟩
  obtain ⟨txn, rest, hbuf⟩ := List.exists_cons_of_ne_nil hbuf
  obtain ⟨qb, hqb⟩ := Fifo.exists_deq hbuf
  obtain ⟨qs, hqs⟩ := Fifo.exists_enq (q := s.shadowQ) (by simp [hcalm.rested.shadowQ]) txn
  obtain ⟨qm, hqm⟩ := Fifo.exists_enq (q := s.schedQ) (by simp [hcalm.schedQ]) (txn.message 0)
  obtain ⟨qt, hqt⟩ := Fifo.exists_enq (q := s.puppetTxns 0) (by simp [hcalm.lists]) txn
  have hfree : s.mainSummary.state = .Free := by
    refine hcalm.rested.main.resolve_right fun hchecking => ?_
    rw [hcalm.sound.checking, h.fsm] at hchecking
    cases hchecking
  refine ⟨txn, { s with
    lookaheadFailCount := 0
    lookaheadBuffer := qb
    mainSummary := ⟨addAll s.mainSummary.contents txn.fingerprint, .Adding, txn.fingerprint⟩
    shadowQ := qs
    schedQ := qm
    numTxnScheduled := s.numTxnScheduled + 1
    puppetTxns := Function.update s.puppetTxns 0 qt
    lookaheadFSM := .idle }, ?_, ?_⟩
  · simp only [Pm.step, expect_eq_some, Pm.lookaheadStep3a, Option.bind_eq_bind, Option.bind_eq_some_iff,
      require_eq_some, exists_const, Prod.exists, Fifo.deq_eq_some, Fifo.enq_eq_some,
      AtomicSummary.txns_put_eq_some, Option.some.injEq, Prod.mk.injEq]
    exact ⟨⟨hpred, h.fsm, h.compat⟩, 0, h.armed.freePuppetId, txn, qb, hqb ▸ hbuf, _, ⟨hfree, rfl⟩, qs, hqs,
      qm, hqm, qt, hqt, ⟨rfl, rfl⟩, rfl⟩
  · simp only [toGo, hqb, hbuf, List.length_cons]
    omega

-- By its own rules the module brings some transaction nearer to a puppet, or to the point of
-- admitting it.
def Advances (s : Pm) : Prop :=
  ∃ t, Reaches Background s t ∧ Calm t ∧ (t.toGo < s.toGo ∨ t.toGo = s.toGo ∧ Ready t)

theorem Advances.of_reaches (hreach : Reaches Background s t) (hgo : t.toGo = s.toGo) (h : Advances t) :
    Advances s := by
  obtain ⟨u, hmore, hcalm, hend⟩ := h
  exact ⟨u, hreach.trans hmore, hcalm, hgo ▸ hend⟩

theorem Asked.advances (hreach : Reaches Background s t) (h : Asked s t) (hcompat : t.isCompat = true) :
    Advances s := by
  obtain ⟨u, harm, hready, rfl⟩ := h.calm.reaches_armed
  exact ⟨_, hreach.trans harm, hready.calm, .inr ⟨h.kept.toGo, hready, h.fsm, hcompat⟩⟩

-- Else a check fails and the FSM is idle again.
theorem fails_of_not_advances (h : Calm s) (hbuf : s.lookaheadBuffer.items ≠ []) (hnot : ¬Advances s) :
    ∃ t, Reaches Background s t ∧ Calm t ∧ Kept s t ∧ t.lookaheadFSM = .idle ∧
      t.lookaheadFailCount = s.lookaheadFailCount + 1 ∧
      ¬(s.lookaheadFSM = .idle ∧ s.mainSummary.contents = fun _ _ => 0) := by
  obtain ⟨t, hreach, hasked, hempty⟩ := h.reaches_asked hbuf
  have hcompat : t.isCompat ≠ true := fun hcompat => hnot (hasked.advances hreach hcompat)
  obtain ⟨u, hfail, hcalm, hkept, hidle, hcount⟩ :=
    hasked.calm.fails hasked.fsm (Bool.eq_false_iff.mpr hcompat)
  exact ⟨u, hreach.trans hfail, hcalm, hasked.kept.trans hkept, hidle, hasked.failCount ▸ hcount,
    fun hboth => hcompat (hempty hboth.1 hboth.2)⟩

theorem tries_of_not_advances (h : Calm s) (hgo : s.toGo ≠ 0) (hnot : ¬Advances s) :
    ∃ t, Reaches Background s t ∧ Calm t ∧ Kept s t ∧ t.lookaheadFSM = .idle ∧
      t.lookaheadFailCount = s.lookaheadFailCount + 1 ∧
      ¬(s.lookaheadFSM = .idle ∧ s.mainSummary.contents = fun _ _ => 0) := by
  by_cases hbuf : s.lookaheadBuffer.items = []
  · obtain ⟨t, hreach, hcalm, hless | ⟨hkept, hcount, hfsm, hne⟩⟩ := h.fills hbuf hgo
    · exact absurd ⟨t, hreach, hcalm, .inl hless⟩ hnot
    · have hnot' : ¬Advances t := fun hadvances => hnot (hadvances.of_reaches hreach hkept.toGo)
      have hfails := fails_of_not_advances hcalm hne hnot'
      rw [hcount, hfsm, hkept.main] at hfails
      obtain ⟨u, hmore, hcalm', hkept', hrest⟩ := hfails
      exact ⟨u, hreach.trans hmore, hcalm', hkept.trans hkept', hrest⟩
  · exact fails_of_not_advances h hbuf hnot

-- A module that waits for a refresh: nothing that it tries succeeds.
structure Blocked (s t : Pm) : Prop where
  calm : Calm t
  kept : Kept s t
  idle : t.lookaheadFSM = .idle
  stuck : ¬Advances t

-- The count of failures comes round to the one that starts a refresh.
theorem Blocked.fails_enough (h : Blocked s t) (hgo : s.toGo ≠ 0) :
    ∃ u, Reaches Background t u ∧ Blocked s u ∧ u.lookaheadFailCount = BitVec.ofNat 2 LookaheadBufferSize := by
  apply reaches_of_decreasing (Blocked s)
    (fun t => t.lookaheadFailCount = BitVec.ofNat 2 LookaheadBufferSize)
    (fun t => (BitVec.ofNat 2 LookaheadBufferSize - t.lookaheadFailCount).toNat) _ h
  intro t ht hcount
  obtain ⟨u, hreach, hcalm, hkept, hidle, hnext, -⟩ :=
    tries_of_not_advances ht.calm (ht.kept.toGo ▸ hgo) ht.stuck
  refine ⟨u, hreach, ⟨hcalm, ht.kept.trans hkept, hidle, fun hadvances => ?_⟩, ?_⟩
  · exact ht.stuck (hadvances.of_reaches hreach hkept.toGo)
  · rw [hnext]
    revert hcount
    generalize t.lookaheadFailCount = count
    revert count
    decide

-- A refresh that is due is no way out as long as something is left in the main filter.
theorem Blocked.refreshes (h : Blocked s t) (hgo : s.toGo ≠ 0) (hle : ∀ u, Reaches Background t u → u.numPuppets ≤ 16) :
    ∃ u, Reaches Background t u ∧ Blocked u u ∧ u.toGo = s.toGo ∧
      u.mainSummary.contents = s.shadowSummary.contents ∧ u.shadowSummary.contents = fun _ _ => 0 := by
  obtain ⟨u, hreach, hblocked, hcount⟩ := h.fails_enough hgo
  obtain ⟨v, hmore, hcalm, hgo', hidle, hmain, hshadow⟩ :=
    hblocked.calm.refreshes (hle u hreach) hblocked.idle hcount
  have hsame := hgo'.trans hblocked.kept.toGo
  refine ⟨v, hreach.trans hmore, ⟨hcalm, .refl v, hidle, fun hadvances => ?_⟩, hsame,
    hmain.trans hblocked.kept.shadow, hshadow⟩
  refine h.stuck (hadvances.of_reaches (hreach.trans hmore) ?_)
  exact hsame.trans h.kept.toGo.symm

theorem numPuppets_of_reaches (h : Reaches Background s t) : t.numPuppets = s.numPuppets := by
  refine h.invariant (fun t => t.numPuppets = s.numPuppets) rfl fun u label v hu hstep => ?_
  have hbackground := hstep.2.2
  cases fires_of_step hstep.1 with
  | setNumPuppets => cases hbackground
  | _ => exact hu

-- After two refreshes the main filter is empty, and a transaction is found compatible.
theorem Calm.advances (h : Calm s) (hle : s.numPuppets ≤ 16) (hgo : s.toGo ≠ 0) : Advances s := by
  by_contra hnot
  obtain ⟨t, hreach, hcalm, hkept, hidle, -⟩ := tries_of_not_advances h hgo hnot
  have hblocked : Blocked s t :=
    ⟨hcalm, hkept, hidle, fun hadvances => hnot (hadvances.of_reaches hreach hkept.toGo)⟩
  have hbound : ∀ {u}, Reaches Background s u → u.numPuppets ≤ 16 :=
    fun hu => numPuppets_of_reaches hu ▸ hle
  obtain ⟨u, hfirst, hblocked', hgo', -, hempty⟩ :=
    hblocked.refreshes hgo fun _ hu => hbound (hreach.trans hu)
  obtain ⟨v, hsecond, hblocked'', hgo'', hmain, -⟩ :=
    hblocked'.refreshes (hgo' ▸ hgo) fun _ hu => hbound ((hreach.trans hfirst).trans hu)
  have hgo : v.toGo ≠ 0 := by
    rw [hgo'', hgo']
    exact hgo
  obtain ⟨-, -, -, -, -, -, hnonempty⟩ := tries_of_not_advances hblocked''.calm hgo hblocked''.stuck
  exact hnonempty ⟨hblocked''.idle, hmain.trans hempty⟩

end Puppetmaster.Hardware.Pm
