import Puppetmaster.Hardware.Conflict
import Puppetmaster.Hardware.Pm.Walk
import Puppetmaster.Library.Apart

namespace Puppetmaster.Hardware.Pm

open Library Library.Transition

variable {s t : Pm} {label : Label} {labels : List Label}

def Label.answer : Label → Option Bool
  | .lookaheadStep2 answer => some answer
  | _ => none

def Label.refreshes : Label → Bool
  | .startRefresh => true
  | _ => false

-- A filter holds a fingerprint when adding it changes nothing.
def Covers (mem : BloomMemory) (txn : TxnFingerprint) : Prop := addAll mem txn = mem

instance (mem : BloomMemory) (txn : TxnFingerprint) : Decidable (Covers mem txn) :=
  inferInstanceAs (Decidable (_ = _))

theorem covers_iff {mem : BloomMemory} {txn : TxnFingerprint} :
    Covers mem txn ↔ Bloom.insert ∅ txn.objs ⊆ marked mem := by
  unfold Covers
  rw [← marked_injective.eq_iff, marked_addAll]
  constructor
  · intro h c hc
    rw [Bloom.mem_insert] at hc
    rw [← h]
    exact Bloom.mem_insert.mpr (Or.inr (hc.resolve_left (Set.notMem_empty c)))
  · intro h
    ext c
    rw [Bloom.mem_insert]
    exact ⟨fun hc => hc.elim id fun hc => h (Bloom.mem_insert.mpr (Or.inr hc)), Or.inl⟩

theorem covers_addAll_self (mem : BloomMemory) (txn : TxnFingerprint) :
    Covers (addAll mem txn) txn := addAll_idem mem txn

theorem Covers.addAll {mem : BloomMemory} {txn : TxnFingerprint} (h : Covers mem txn)
    (other : TxnFingerprint) : Covers (addAll mem other) txn := by
  unfold Covers at *
  rw [addAll_comm, h]

-- A covered transaction makes the filter reject whatever conflicts with it.
theorem Covers.not_conflict {mem : BloomMemory} {x y : Hashed} (h : Covers mem y.fingerprint)
    (hverdict : AtomicSummary.verdict mem x.fingerprint = true) :
    ¬y.source.txn.Conflict x.source.txn := by
  intro hconflict
  rw [covers_iff, y.hashed] at h
  rw [AtomicSummary.verdict_iff, x.hashed] at hverdict
  exact not_compatible_of_conflict hconflict h hverdict

-- The filter is exact: a check answers by what mainSummary holds.
abbrev Exact (s : Pm) (label : Label) : Prop :=
  ∀ answer ∈ label.answer, answer = AtomicSummary.verdict s.mainSummary.contents s.mainSummary.txn

-- What a refresh needs: the shadow holds every active transaction.
abbrev ShadowCovers (s : Pm) : Prop :=
  ∀ pid, ∀ txn ∈ (s.puppetTxns pid).items, Covers s.shadowSummary.contents txn.fingerprint

abbrev Covered (s : Pm) (label : Label) : Prop :=
  Exact s label ∧ (label.refreshes = true → ShadowCovers s)

-- Active transactions, as the lists of the puppets.
def active (s : Pm) (pid : PuppetId) : List Hashed := (s.puppetTxns pid).items

def Unrelated (x y : Hashed) : Prop := ¬x.source.txn.Conflict y.source.txn

theorem Unrelated.symm {x y : Hashed} (h : Unrelated x y) : Unrelated y x :=
  fun hconflict => h hconflict.symm

-- The main filter covers what is active, the FSM checks the head of the buffer, and a
-- transaction about to be admitted conflicts with nothing that is active.
structure Safe (s : Pm) : Prop where
  covered : ∀ pid, ∀ txn ∈ s.active pid, Covers s.mainSummary.contents txn.fingerprint
  apart : Apart Unrelated s.active
  asked : s.lookaheadFSM = .step2 → s.mainSummary.state = .Checking ∧
    ∃ txn rest, s.lookaheadBuffer.items = txn :: rest ∧ s.mainSummary.txn = txn.fingerprint
  admitted : s.lookaheadFSM = .step3 → s.isCompat = true →
    ∃ txn rest, s.lookaheadBuffer.items = txn :: rest ∧
      ∀ pid, ∀ y ∈ s.active pid, Unrelated y txn

theorem Safe.reset (isCompat : Bool) (main shadow : TxnFingerprint) :
    Safe (Pm.reset isCompat main shadow) where
  covered _ _ htxn := absurd htxn List.not_mem_nil
  apart := Apart.of_empty fun _ => rfl
  asked := nofun
  admitted := nofun

-- Steps that leave the lists, the main filter and the FSM alone and at most append to
-- the buffer.
theorem Safe.quiet (h : Safe s) (hlists : t.puppetTxns = s.puppetTxns)
    (hmain : t.mainSummary = s.mainSummary) (hfsm : t.lookaheadFSM = s.lookaheadFSM)
    (hcompat : t.isCompat = s.isCompat)
    (hbuf : ∃ new, t.lookaheadBuffer.items = s.lookaheadBuffer.items ++ new) : Safe t := by
  have hactive : t.active = s.active := by
    funext pid
    rw [active, active, hlists]
  obtain ⟨new, hbuf⟩ := hbuf
  refine ⟨?_, ?_, ?_, ?_⟩
  · rw [hactive, hmain]
    exact h.covered
  · rw [hactive]
    exact h.apart
  · rw [hfsm, hmain]
    intro hstep2
    obtain ⟨hstate, txn, rest, hhead, htxn⟩ := h.asked hstep2
    exact ⟨hstate, txn, rest ++ new, by rw [hbuf, hhead, List.cons_append], htxn⟩
  · rw [hfsm, hcompat, hactive]
    intro hstep3 hyes
    obtain ⟨txn, rest, hhead, hunrelated⟩ := h.admitted hstep3 hyes
    exact ⟨txn, rest ++ new, by rw [hbuf, hhead, List.cons_append], hunrelated⟩

-- The main filter is not Checking, so no check is under way.
theorem Safe.not_step2 (h : Safe s) (hstate : s.mainSummary.state ≠ .Checking) :
    s.lookaheadFSM ≠ .step2 :=
  fun hstep2 => hstate (h.asked hstep2).1

-- Steps of the main filter while it checks nothing.
theorem Safe.main (h : Safe s) (hstate : s.mainSummary.state ≠ .Checking)
    (hcovers : ∀ pid, ∀ txn ∈ s.active pid, Covers t.mainSummary.contents txn.fingerprint)
    (hactive : t.active = s.active) (hfsm : t.lookaheadFSM = s.lookaheadFSM)
    (hcompat : t.isCompat = s.isCompat) (hbuf : t.lookaheadBuffer = s.lookaheadBuffer) :
    Safe t := by
  refine ⟨?_, ?_, fun hstep2 => absurd (hfsm ▸ hstep2) (h.not_step2 hstate), ?_⟩
  · rw [hactive]
    exact hcovers
  · rw [hactive]
    exact h.apart
  · rw [hfsm, hcompat, hbuf, hactive]
    exact h.admitted

theorem active_update_self {lists : PuppetId → Fifo Hashed ActivePerPuppet} {pid : PuppetId}
    {txns : Fifo Hashed ActivePerPuppet} (h : t.puppetTxns = Function.update lists pid txns) :
    t.active pid = txns.items := by
  rw [active, h, Function.update_self]

theorem active_update_other {pid p : PuppetId} {txns : Fifo Hashed ActivePerPuppet}
    (h : t.puppetTxns = Function.update s.puppetTxns pid txns) (hp : p ≠ pid) :
    t.active p = s.active p := by
  rw [active, h, Function.update_of_ne hp, active]

theorem Safe.step (h : Safe s) (hstep : s.step label = some t) (hexact : Exact s label)
    (hshadow : label.refreshes = true → ShadowCovers s) : Safe t := by
  cases fires_of_step hstep with
  | drainReinsert hstate hre hbuf => exact h.quiet rfl rfl rfl rfl ⟨_, hbuf⟩
  | drainNew hstate hre hin hbuf => exact h.quiet rfl rfl rfl rfl ⟨_, hbuf⟩
  | @drainLookahead txn rest hpred hstate hfsm hbuf hmain =>
      exact ⟨h.covered, h.apart, fun _ => ⟨rfl, txn, rest, hbuf, rfl⟩, nofun⟩
  | @lookaheadStep2 answer hpred hfsm hmain =>
      obtain ⟨-, txn, rest, hhead, htxn⟩ := h.asked hfsm
      refine ⟨h.covered, h.apart, nofun, fun _ hyes => ⟨txn, rest, hhead, fun pid y hy => ?_⟩⟩
      apply (h.covered pid y hy).not_conflict
      rw [← htxn, ← hexact answer rfl]
      exact hyes
  | @lookaheadStep3a txn pid qb qs qm txns hpid hfsm hcompat hbuf hmain hshadowQ hsched htxns =>
      obtain ⟨txn', rest, hhead, hunrelated⟩ := h.admitted hfsm hcompat
      obtain ⟨rfl, -⟩ := List.cons.inj (hbuf.symm.trans hhead)
      refine ⟨fun p y hy => ?_, ?_, nofun, nofun⟩
      · by_cases hp : p = pid
        · subst hp
          rw [active_update_self rfl, htxns, List.mem_append, List.mem_singleton] at hy
          rcases hy with hy | rfl
          · exact (h.covered p y hy).addAll _
          · exact covers_addAll_self _ _
        · rw [active_update_other rfl hp] at hy
          exact (h.covered p y hy).addAll _
      · refine h.apart.append (fun _ _ => Unrelated.symm) pid txn ?_ ?_ hunrelated
        · rw [active_update_self rfl, htxns, active]
        · exact fun p hp => active_update_other rfl hp
  | lookaheadStep3b hpred hfsm hcompat hbuf hre => exact ⟨h.covered, h.apart, nofun, nofun⟩
  | @clearWorkDone done txn qw txns hdone htxns =>
      have hsub : ∀ p, List.Sublist (active { s with
          numTxnScheduled := s.numTxnScheduled - 1
          puppetTxns := Function.update s.puppetTxns done.puppetId txns
          workDoneQ := qw } p) (s.active p) := by
        intro p
        by_cases hp : p = done.puppetId
        · subst hp
          rw [active_update_self rfl, active, htxns]
          exact List.sublist_cons_self _ _
        · rw [active_update_other rfl hp]
      refine ⟨fun p y hy => h.covered p y ((hsub p).mem hy), h.apart.shrink hsub, h.asked, ?_⟩
      intro hstep3 hyes
      obtain ⟨x, rest, hhead, hunrelated⟩ := h.admitted hstep3 hyes
      exact ⟨x, rest, hhead, fun p y hy => hunrelated p y ((hsub p).mem hy)⟩
  | startRefresh hstate hfail hcomplete hshadowFree hmain =>
      exact h.main (by simp [hmain]) (hshadow rfl) rfl rfl rfl rfl
  | mainFinish hbusy =>
      have hstate : s.mainSummary.state ≠ .Checking := by
        rcases hbusy with hb | hb | hb <;> simp [hb]
      exact h.main hstate h.covered rfl rfl rfl rfl
  | _ => exact h.quiet rfl rfl rfl rfl ⟨[], (List.append_nil _).symm⟩

-- No two active transactions conflict, through any number of refreshes that find the
-- shadow complete.
theorem active_never_conflict (isCompat : Bool) (main shadow : TxnFingerprint)
    (labels : List Label) (s : Pm)
    (hrun : Run (Meeting step Covered) (reset isCompat main shadow) labels s) :
    Apart (fun x y : Hashed => ¬x.source.txn.Conflict y.source.txn)
      fun pid => (s.puppetTxns pid).items :=
  (hrun.invariant Safe (Safe.reset isCompat main shadow) fun _ _ _ h hstep =>
    h.step hstep.1 hstep.2.1 hstep.2.2).apart

def refreshRun : List Label := [.startRefresh, .mainFinish, .shadowFinish, .switchDone]

-- Two transactions that write object 0: the first is active, the second fails twice
-- and brings about a refresh.
def oneRefreshRun : List Label :=
  firstRun ++ [.shadowUpdateNew, .shadowFinish] ++ arriveRun ⟨1, writesZero⟩ ++
    rejectRun ⟨1, writesZero⟩ ++ rejectRun ⟨1, writesZero⟩ ++ walkRun ++ refreshRun

theorem active_never_conflict_one_refresh :
    ∃ s, Run (Meeting step Covered) resetState oneRefreshRun s ∧
      Apart (fun x y : Hashed => ¬x.source.txn.Conflict y.source.txn)
        fun pid => (s.puppetTxns pid).items := by
  have hexec : (exec (guarded step Covered) resetState oneRefreshRun).isSome = true := by
    decide +kernel
  obtain ⟨s, hs⟩ := Option.isSome_iff_exists.mp hexec
  exact ⟨s, run_meeting_of_exec hs, active_never_conflict _ _ _ _ s (run_meeting_of_exec hs)⟩

-- The first transaction is still active, but the next refresh finds an empty shadow,
-- and the second one is admitted beside it.
def twoRefreshRun : List Label :=
  oneRefreshRun ++ rejectRun ⟨1, writesZero⟩ ++ rejectRun ⟨1, writesZero⟩ ++ walkRun ++
    refreshRun ++ admitRun ⟨1, writesZero⟩ 1

theorem conflicting_both_active :
    ∃ s, Run (Meeting step Exact) resetState twoRefreshRun s ∧
      ¬Apart (fun x y : Hashed => ¬x.source.txn.Conflict y.source.txn)
        fun pid => (s.puppetTxns pid).items := by
  have hexec : ((exec (guarded step Exact) resetState twoRefreshRun).any fun s =>
      (s.puppetTxns 0).items = [Submitted.hash ⟨0, writesZero⟩] ∧
        (s.puppetTxns 1).items = [Submitted.hash ⟨1, writesZero⟩]) = true := by
    decide +kernel
  obtain ⟨s, hs, hitems⟩ := (Option.any_eq_true _ _).mp hexec
  obtain ⟨hzero, hone⟩ := of_decide_eq_true hitems
  refine ⟨s, run_meeting_of_exec hs, fun hapart => ?_⟩
  apply hapart.across 0 1 (by decide) (Submitted.hash ⟨0, writesZero⟩) ?_
    (Submitted.hash ⟨1, writesZero⟩) ?_
  · exact ⟨0, Or.inr (Or.inr ⟨⟨0, by decide, rfl⟩, 0, by decide, rfl⟩)⟩
  · simp only [hzero, List.mem_singleton]
  · simp only [hone, List.mem_singleton]

end Puppetmaster.Hardware.Pm
