import Puppetmaster.Hardware.Pm.Safety

namespace Puppetmaster.Hardware.Pm

open Library Library.Transition

variable {s t : Pm} {label : Label} {labels : List Label} {isCompat : Bool}
  {main shadow : TxnFingerprint}

-- The lookahead buffer and the queue back into it. New input enters only while nothing
-- waits to be re-inserted, so what they hold together fits into the buffer.
def InLookahead (s : Pm) : Prop :=
  s.lookaheadBuffer.items.length + s.lookaheadReinsert.items.length ≤ LookaheadBufferSize

theorem InLookahead.step (h : InLookahead s) (hstep : s.step label = some t) : InLookahead t := by
  unfold InLookahead at *
  cases fires_of_step hstep with
  | @drainReinsert txn qr qb hstate hre hbuf =>
      have hlen := congrArg List.length hre
      rw [List.length_cons] at hlen
      simp only [hbuf, List.length_append, List.length_singleton]
      omega
  | @drainNew txn qi qb hstate hre hin hbuf =>
      have hbound := qb.bound
      simp only [hre, List.length_nil]
      omega
  | lookaheadStep3a hpid hfsm hcompat hbuf =>
      have hlen := congrArg List.length hbuf
      rw [List.length_cons] at hlen
      simp only
      omega
  | @lookaheadStep3b txn qb qr hpred hfsm hcompat hbuf hre =>
      have hlen := congrArg List.length hbuf
      rw [List.length_cons] at hlen
      simp only [hre, List.length_append, List.length_singleton]
      omega
  | _ => exact h

-- The FSM waits in step 3.b for a place in lookaheadReinsert.
def WaitsForReinsert (s : Pm) : Prop :=
  s.lookaheadFSM = .step3 ∧ s.isCompat = false ∧ s.lookaheadReinsert.items.length = 1

-- drainInput moves the transaction that waits to be re-inserted.
def Reinserts (s : Pm) : Prop :=
  ∃ txn t, s.step .drainInput = some t ∧ s.lookaheadReinsert.items = [txn] ∧
    t.lookaheadReinsert.items = [] ∧ t.lookaheadBuffer.items = s.lookaheadBuffer.items ++ [txn]

theorem InLookahead.reinserts (h : InLookahead s) (hfull : s.lookaheadReinsert.items.length = 1)
    (hstate : s.state = .Normal) : Reinserts s := by
  obtain ⟨txn, htxn⟩ := List.length_eq_one_iff.mp hfull
  have hroom : s.lookaheadBuffer.items.length < LookaheadBufferSize := by
    unfold InLookahead at h
    omega
  have hdeq : s.lookaheadReinsert.deq = some (txn, Fifo.empty) := Fifo.deq_eq_some.mpr htxn
  have henq : s.lookaheadBuffer.enq txn = some ⟨_, s.lookaheadBuffer.length_snoc_le txn hroom⟩ :=
    dif_pos hroom
  have hne : s.lookaheadReinsert.notEmpty = true := by
    simp [Fifo.notEmpty, htxn]
  refine ⟨txn, { s with
    lookaheadReinsert := Fifo.empty
    lookaheadBuffer := ⟨_, s.lookaheadBuffer.length_snoc_le txn hroom⟩ }, ?_, htxn, rfl, rfl⟩
  simp only [Pm.step, drainInput, hstate, hne, hdeq, henq, require, if_true, Option.bind_eq_bind,
    Option.bind_some]

-- The two queues never wait for each other.
structure NeverStuck (s : Pm) : Prop where
  together : s.lookaheadBuffer.items.length + s.lookaheadReinsert.items.length ≤ LookaheadBufferSize
  room : s.lookaheadReinsert.items.length = 1 → s.lookaheadBuffer.items.length < LookaheadBufferSize
  drains : WaitsForReinsert s → s.state = .Normal → Reinserts s

theorem reinsert_never_stuck (isCompat : Bool) (main shadow : TxnFingerprint) (labels : List Label)
    (s : Pm) (hrun : Run (Of step) (reset isCompat main shadow) labels s) : NeverStuck s := by
  have h := hrun.invariant InLookahead (Nat.zero_le _) fun _ _ _ h hstep => h.step hstep
  refine ⟨h, fun hfull => ?_, fun hwaits => h.reinserts hwaits.2.2⟩
  unfold InLookahead at h
  omega

instance (s : Pm) : Decidable (WaitsForReinsert s) := inferInstanceAs (Decidable (_ ∧ _))

-- Two transactions behind an active one are checked in turn; the second cannot be put back
-- before the first is back in the buffer.
def waitingRun : List Label :=
  firstRun ++ arriveRun ⟨1, writesZero⟩ ++ arriveRun ⟨2, writesZero⟩ ++
    [.drainLookahead (Submitted.hash ⟨1, writesZero⟩), .lookaheadStep2 false,
      .lookaheadStep3b (Submitted.hash ⟨1, writesZero⟩),
      .drainLookahead (Submitted.hash ⟨2, writesZero⟩), .lookaheadStep2 false]

theorem reinsert_never_stuck_waiting :
    ∃ s, Run (Of step) resetState waitingRun s ∧ WaitsForReinsert s ∧ s.state = .Normal ∧
      NeverStuck s := by
  have hexec : ((exec step resetState waitingRun).any fun s =>
      WaitsForReinsert s ∧ s.state = .Normal) = true := by
    decide +kernel
  obtain ⟨s, hs, hwaits⟩ := (Option.any_eq_true _ _).mp hexec
  obtain ⟨hwaits, hstate⟩ := of_decide_eq_true hwaits
  exact ⟨s, run_of_exec hs, hwaits, hstate, reinsert_never_stuck _ _ _ _ s (run_of_exec hs)⟩

def Label.failuresAfter (failures : ℕ) : Label → ℕ
  | .lookaheadStep3b _ => failures + 1
  | .lookaheadStep3a _ _ | .startRefresh => 0
  | _ => failures

-- Failed checks since the last admission or refresh, whichever came later.
def failures (labels : List Label) : ℕ := labels.foldl Label.failuresAfter 0

theorem failures_snoc (labels : List Label) (label : Label) :
    failures (labels ++ [label]) = label.failuresAfter (failures labels) := by
  simp only [failures, List.foldl_append, List.foldl_cons, List.foldl_nil]

-- The counter has two bits and wraps.
theorem lookaheadFailCount_step (hcount : s.lookaheadFailCount = BitVec.ofNat 2 (failures labels))
    (h : s.step label = some t) :
    t.lookaheadFailCount = BitVec.ofNat 2 (failures (labels ++ [label])) := by
  rw [failures_snoc]
  cases fires_of_step h with
  | lookaheadStep3a | startRefresh => rfl
  | lookaheadStep3b hpred hfsm hcompat hbuf hre =>
      rw [Label.failuresAfter, BitVec.ofNat_add, ← hcount]
      rfl
  | _ => exact hcount

theorem lookaheadFailCount_of_run
    (hrun : Run (Of step) (reset isCompat main shadow) labels s) :
    s.lookaheadFailCount = BitVec.ofNat 2 (failures labels) :=
  hrun.history (fun labels s => s.lookaheadFailCount = BitVec.ofNat 2 (failures labels)) rfl
    fun _ _ _ _ => lookaheadFailCount_step

-- Nothing but the count of failures stands in the way of a refresh, and they are enough.
structure Due (labels : List Label) (s : Pm) : Prop where
  failed : LookaheadBufferSize ≤ failures labels
  normal : s.state = .Normal
  complete : s.shadowComplete = true
  mainFree : s.mainSummary.isFree = true
  shadowFree : s.shadowSummary.isFree = true

theorem startRefresh_isSome_iff : (s.step .startRefresh).isSome = true ↔
    (s.state = .Normal ∧ s.lookaheadFailCount = BitVec.ofNat 2 LookaheadBufferSize ∧
      s.shadowComplete = true) ∧ s.mainSummary.isFree = true ∧ s.shadowSummary.isFree = true := by
  constructor
  · intro h
    obtain ⟨t, ht⟩ := Option.isSome_iff_exists.mp h
    cases fires_of_step ht with
    | startRefresh hstate hfail hcomplete hshadow hmain =>
        exact ⟨⟨hstate, hfail, hcomplete⟩, decide_eq_true hmain, decide_eq_true hshadow⟩
  · rintro ⟨hstart, hmain, hshadow⟩
    have hmain : s.mainSummary.state = .Free := of_decide_eq_true hmain
    have hshadow : s.shadowSummary.state = .Free := of_decide_eq_true hshadow
    simp only [Pm.step, startRefresh, AtomicSummary.startCopy, require, hstart, hmain, hshadow,
      and_self, if_true, Option.bind_eq_bind, Option.bind_some, Option.isSome_some]

theorem lookaheadFailCount_eq_iff (hrun : Run (Of step) (reset isCompat main shadow) labels s) :
    s.lookaheadFailCount = BitVec.ofNat 2 LookaheadBufferSize ↔
      failures labels % 4 = LookaheadBufferSize := by
  rw [lookaheadFailCount_of_run hrun, ← BitVec.toNat_inj, BitVec.toNat_ofNat, BitVec.toNat_ofNat]
  rfl

def Label.fails : Label → Bool
  | .lookaheadStep3b _ => true
  | _ => false

-- No check fails once enough have failed.
abbrev StopsFailing (s : Pm) (label : Label) : Prop :=
  label.fails = true → s.lookaheadFailCount < BitVec.ofNat 2 LookaheadBufferSize

theorem failures_le_of_stopsFailing
    (hrun : Run (Meeting step StopsFailing) (reset isCompat main shadow) labels s) :
    failures labels ≤ LookaheadBufferSize := by
  have hboth := hrun.history
    (fun labels s => s.lookaheadFailCount = BitVec.ofNat 2 (failures labels) ∧
      failures labels ≤ LookaheadBufferSize)
    ⟨rfl, Nat.zero_le _⟩ fun labels s label t h hstep => by
      refine ⟨lookaheadFailCount_step h.1 hstep.1, ?_⟩
      rw [failures_snoc]
      cases fires_of_step hstep.1 with
      | lookaheadStep3a | startRefresh => exact Nat.zero_le _
      | lookaheadStep3b =>
          have hlt := hstep.2 rfl
          rw [h.1, BitVec.lt_def, BitVec.toNat_ofNat, BitVec.toNat_ofNat] at hlt
          have hle := h.2
          simp only [Label.failuresAfter, LookaheadBufferSize] at *
          omega
      | _ => exact h.2
  exact hboth.2

-- A due refresh starts when the failures are two, six, ten and so on: the comparison asks
-- for the counter to stand at LookaheadBufferSize, and further checks may fail before the
-- walk completes.
theorem due_refresh_starts (isCompat : Bool) (main shadow : TxnFingerprint) :
    (∀ labels s, Run (Of step) (reset isCompat main shadow) labels s → Due labels s →
      ((s.step .startRefresh).isSome = true ↔ failures labels % 4 = LookaheadBufferSize)) ∧
    ∀ labels s, Run (Meeting step StopsFailing) (reset isCompat main shadow) labels s →
      Due labels s → (s.step .startRefresh).isSome = true := by
  have hiff : ∀ labels s, Run (Of step) (reset isCompat main shadow) labels s → Due labels s →
      ((s.step .startRefresh).isSome = true ↔ failures labels % 4 = LookaheadBufferSize) := by
    intro labels s hrun hdue
    rw [startRefresh_isSome_iff, lookaheadFailCount_eq_iff hrun]
    exact ⟨fun h => h.1.2.1, fun h =>
      ⟨⟨hdue.normal, h, hdue.complete⟩, hdue.mainFree, hdue.shadowFree⟩⟩
  refine ⟨hiff, fun labels s hrun hdue => ?_⟩
  rw [hiff labels s (hrun.mono fun _ _ _ h => h.1) hdue,
    le_antisymm (failures_le_of_stopsFailing hrun) hdue.failed]
  rfl

instance (labels : List Label) (s : Pm) : Decidable (Due labels s) :=
  decidable_of_iff (LookaheadBufferSize ≤ failures labels ∧ s.state = .Normal ∧
    s.shadowComplete = true ∧ s.mainSummary.isFree = true ∧ s.shadowSummary.isFree = true)
    ⟨fun ⟨h₁, h₂, h₃, h₄, h₅⟩ => ⟨h₁, h₂, h₃, h₄, h₅⟩,
      fun h => ⟨h.failed, h.normal, h.complete, h.mainFree, h.shadowFree⟩⟩

-- The second transaction fails as often as given before the walk completes.
def failingRun (times : ℕ) : List Label :=
  firstRun ++ [.shadowUpdateNew, .shadowFinish] ++ arriveRun ⟨1, writesZero⟩ ++
    (List.replicate times (rejectRun ⟨1, writesZero⟩)).flatten ++ walkRun

theorem due_refresh_starts_twice :
    ∃ s, Run (Meeting step StopsFailing) resetState (failingRun 2) s ∧ Due (failingRun 2) s ∧
      (s.step .startRefresh).isSome = true := by
  have hexec : ((exec (guarded step StopsFailing) resetState (failingRun 2)).any fun s =>
      Due (failingRun 2) s) = true := by
    decide +kernel
  obtain ⟨s, hs, hdue⟩ := (Option.any_eq_true _ _).mp hexec
  have hrun := run_meeting_of_exec hs
  exact ⟨s, hrun, of_decide_eq_true hdue,
    (due_refresh_starts _ _ _).2 _ s hrun (of_decide_eq_true hdue)⟩

-- After a third failure the refresh is due and does not start.
theorem due_refresh_skipped :
    ∃ s, Run (Meeting step Exact) resetState (failingRun 3) s ∧ Due (failingRun 3) s ∧
      s.step .startRefresh = none := by
  have hexec : ((exec (guarded step Exact) resetState (failingRun 3)).any fun s =>
      Due (failingRun 3) s ∧ (s.step .startRefresh).isNone) = true := by
    decide +kernel
  obtain ⟨s, hs, hboth⟩ := (Option.any_eq_true _ _).mp hexec
  obtain ⟨hdue, hnone⟩ := of_decide_eq_true hboth
  exact ⟨s, run_meeting_of_exec hs, hdue, Option.isNone_iff_eq_none.mp hnone⟩

end Puppetmaster.Hardware.Pm
