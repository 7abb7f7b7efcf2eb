import Puppetmaster.Library.SwapRemove
import Puppetmaster.Library.Sweep
import Puppetmaster.Runner.Workload

namespace Puppetmaster.Runner

open Library Wrapper

-- The times at which the log has seen a transaction, where 0 is missing.
structure Timeline where
  submit : ℕ
  sched : ℕ
  work : ℕ
  done : ℕ
  cleanup : ℕ
deriving DecidableEq

structure SchedEvt (num_txns : ℕ) where
  ts_sched : ℕ
  ts_done : ℕ
  id : Fin num_txns

def compare_sched_evt {n : ℕ} (evt_a evt_b : SchedEvt n) : ℤ :=
  if evt_a.ts_sched < evt_b.ts_sched then -1
  else if evt_a.ts_sched > evt_b.ts_sched then 1
  else 0

namespace Timeline

def complete (t : Timeline) : Prop :=
  ¬ (t.submit = 0 ∨ t.sched = 0 ∨ t.work = 0 ∨ t.done = 0 ∨ t.cleanup = 0)

def ordered (t : Timeline) : Prop :=
  t.complete ∧ t.submit ≤ t.sched ∧ t.sched ≤ t.work ∧ t.work ≤ t.done ∧ t.done ≤ t.cleanup

-- The two tests by which the conflict checks pass a transaction over.
def considered (t : Timeline) : Prop :=
  ¬ (t.sched = 0 ∨ t.done = 0) ∧ ¬ (t.submit > t.sched ∨ t.sched > t.done)

instance (t : Timeline) : Decidable t.considered := inferInstanceAs (Decidable (_ ∧ _))

end Timeline

structure ConflictChecks (num_txns : ℕ) where
  active_ids : List (Fin num_txns)
  conflicts : ℕ
  warnings : List String

section

variable (wl : Workload) (tl : Fin wl.num_txns → Timeline) (num_puppets : ℕ)

def schedEvt (i : Fin wl.num_txns) : SchedEvt wl.num_txns where
  ts_sched := (tl i).sched
  ts_done := (tl i).done
  id := i

def sched : List (SchedEvt wl.num_txns) :=
  qsort compare_sched_evt
    (((List.finRange wl.num_txns).filter fun i => (tl i).considered).map (schedEvt wl tl))

-- The array of active transactions without those that are done at `now_sched`.
def removeFinished (now_sched : ℕ) (active_ids : List (Fin wl.num_txns)) :
    List (Fin wl.num_txns) :=
  removeLoop (fun tid => (tl tid).done ≤ now_sched) active_ids.length active_ids 0

-- The first of the active transactions that `cur_id` conflicts with.
def firstConflict (cur_id : Fin wl.num_txns) (active_ids : List (Fin wl.num_txns)) :
    Option (Fin wl.num_txns) :=
  active_ids.find? fun other_id => check_txn_conflict (wl.txns cur_id) (wl.txns other_id)

-- Ten conflicts are printed, and after them that there are more.
def conflictWarning (conflicts : ℕ) (cur_id other_id : Fin wl.num_txns) : List String :=
  if conflicts < 10 then [s!"Conflict: txn {cur_id.val} vs {other_id.val}"]
  else if conflicts = 10 then ["Further conflicts omitted"]
  else []

def recordConflict (s : ConflictChecks wl.num_txns) (cur_id : Fin wl.num_txns) :
    ConflictChecks wl.num_txns :=
  match firstConflict wl cur_id s.active_ids with
  | some other_id =>
      { s with
        conflicts := s.conflicts + 1
        warnings := s.warnings ++ conflictWarning wl s.conflicts cur_id other_id }
  | none => s

def addActive (s : ConflictChecks wl.num_txns) (cur_id : Fin wl.num_txns) :
    ConflictChecks wl.num_txns :=
  if s.active_ids.length < num_puppets then { s with active_ids := s.active_ids ++ [cur_id] } else s

-- One turn of the loop over the scheduled transactions.
def checkEvt (s : ConflictChecks wl.num_txns) (e : SchedEvt wl.num_txns) :
    ConflictChecks wl.num_txns :=
  let s := { s with active_ids := removeFinished wl tl e.ts_sched s.active_ids }
  addActive wl num_puppets (recordConflict wl s e.id) e.id

def conflictChecks : ConflictChecks wl.num_txns :=
  (sched wl tl).foldl (checkEvt wl tl num_puppets) ⟨[], 0, []⟩

-- The considered transactions as they were scheduled.
def schedIds {n : ℕ} (tl : Fin n → Timeline) : List (Fin n) :=
  ((List.finRange n).filter fun i => (tl i).considered).insertionSort fun i j =>
    (tl i).sched ≤ (tl j).sched

-- The sweep records a transaction when fewer than num_puppets of those recorded before it are
-- at work as it is scheduled.
def Recorded {n : ℕ} (tl : Fin n → Timeline) (num_puppets : ℕ) (i : Fin n) : Prop :=
  Tracked (fun i => (tl i).sched) (fun i => (tl i).done) num_puppets {i | (tl i).considered} i

-- Transaction `j` is scheduled while `i` is at work, and they conflict.
def Clash (i j : Fin wl.num_txns) : Prop :=
  (tl i).considered ∧ (tl j).considered ∧ (tl i).sched < (tl j).sched ∧
    (tl j).sched < (tl i).done ∧ check_txn_conflict (wl.txns i) (wl.txns j) = true

end

section

variable {wl : Workload} {tl : Fin wl.num_txns → Timeline} {num_puppets : ℕ}

theorem compare_sched_evt_le {n : ℕ} (evt_a evt_b : SchedEvt n) :
    compare_sched_evt evt_a evt_b ≤ 0 ↔ evt_a.ts_sched ≤ evt_b.ts_sched := by
  unfold compare_sched_evt
  split_ifs <;> omega

theorem sched_eq_map : sched wl tl = (schedIds tl).map (schedEvt wl tl) := by
  unfold sched qsort schedIds
  refine (List.map_insertionSort _ _ _ _ fun i _ j _ => ?_).symm
  rw [compare_sched_evt_le]
  rfl

theorem mem_schedIds {i : Fin wl.num_txns} : i ∈ schedIds tl ↔ (tl i).considered := by
  simp [schedIds]

-- No two considered transactions were scheduled at one time.
def DistinctSched (tl : Fin wl.num_txns → Timeline) : Prop :=
  ∀ i j, (tl i).considered → (tl j).considered → (tl i).sched = (tl j).sched → i = j

theorem swept_schedIds (hdistinct : DistinctSched tl) :
    Swept (fun i => (tl i).sched) {i | (tl i).considered} (schedIds tl) where
  sorted := by
    have hnodup : (schedIds tl).Nodup :=
      (List.perm_insertionSort _ _).nodup_iff.mpr ((List.nodup_finRange _).filter _)
    have hle : (schedIds tl).Pairwise fun a b => (tl a).sched ≤ (tl b).sched :=
      List.pairwise_insertionSort _ _
    refine (hle.and hnodup).imp_of_mem fun {i j} hi hj ⟨hle, hne⟩ => ?_
    refine lt_of_le_of_ne hle fun heq => hne ?_
    exact hdistinct i j (mem_schedIds.mp hi) (mem_schedIds.mp hj) heq
  within i hi := mem_schedIds.mp hi
  closed i hi _ _ _ := mem_schedIds.mpr hi

-- The swap removal leaves the transactions that are still open, in some order.
theorem removeFinished_perm (i : Fin wl.num_txns) {active_ids active : List (Fin wl.num_txns)}
    (h : active_ids.Perm active) :
    (removeFinished wl tl (tl i).sched active_ids).Perm
      (stillOpen (fun i => (tl i).sched) (fun i => (tl i).done) active i) := by
  have hrest : (removeFinished wl tl (tl i).sched active_ids).Perm
      (stillOpen (fun i => (tl i).sched) (fun i => (tl i).done) active_ids i) := by
    refine (removeLoop_zero_perm _ active_ids).trans (List.Perm.of_eq ?_)
    refine List.filter_congr fun tid _ => ?_
    rw [← decide_not, decide_eq_decide, not_le]
  exact hrest.trans (stillOpen_perm h i)

@[simp] theorem recordConflict_active_ids (s : ConflictChecks wl.num_txns)
    (cur_id : Fin wl.num_txns) : (recordConflict wl s cur_id).active_ids = s.active_ids := by
  unfold recordConflict
  split <;> rfl

theorem recordConflict_conflicts (s : ConflictChecks wl.num_txns) (cur_id : Fin wl.num_txns) :
    (recordConflict wl s cur_id).conflicts ≠ 0 ↔ s.conflicts ≠ 0 ∨
      ∃ other_id ∈ s.active_ids, check_txn_conflict (wl.txns cur_id) (wl.txns other_id) = true := by
  unfold recordConflict
  split
  · next other_id hfirst =>
      have hmem := List.mem_of_find?_eq_some hfirst
      have hconflict := List.find?_some hfirst
      exact iff_of_true (Nat.succ_ne_zero _) (Or.inr ⟨other_id, hmem, hconflict⟩)
  · next hfirst =>
      refine (or_iff_left ?_).symm
      rintro ⟨other_id, hmem, hconflict⟩
      exact List.find?_eq_none.mp hfirst other_id hmem hconflict

@[simp] theorem addActive_conflicts (s : ConflictChecks wl.num_txns) (cur_id : Fin wl.num_txns) :
    (addActive wl num_puppets s cur_id).conflicts = s.conflicts := by
  unfold addActive
  split_ifs <;> rfl

theorem addActive_active_ids (s : ConflictChecks wl.num_txns) (cur_id : Fin wl.num_txns) :
    (addActive wl num_puppets s cur_id).active_ids =
      if s.active_ids.length < num_puppets then s.active_ids ++ [cur_id] else s.active_ids := by
  unfold addActive
  split_ifs <;> rfl

theorem checkEvt_active_ids (s : ConflictChecks wl.num_txns) (i : Fin wl.num_txns)
    {active : List (Fin wl.num_txns)} (h : s.active_ids.Perm active) :
    (checkEvt wl tl num_puppets s (schedEvt wl tl i)).active_ids.Perm
      (track (fun i => (tl i).sched) (fun i => (tl i).done) num_puppets active i) := by
  have hopen : (removeFinished wl tl (tl i).sched s.active_ids).Perm _ := removeFinished_perm i h
  simp only [checkEvt, schedEvt, addActive_active_ids, recordConflict_active_ids, track,
    hopen.length_eq]
  split_ifs
  · exact hopen.append_right [i]
  · exact hopen

theorem checkEvt_conflicts (s : ConflictChecks wl.num_txns) (i : Fin wl.num_txns)
    {active : List (Fin wl.num_txns)} (h : s.active_ids.Perm active) :
    (checkEvt wl tl num_puppets s (schedEvt wl tl i)).conflicts ≠ 0 ↔
      s.conflicts ≠ 0 ∨
        ∃ other_id ∈ stillOpen (fun i => (tl i).sched) (fun i => (tl i).done) active i,
          check_txn_conflict (wl.txns i) (wl.txns other_id) = true := by
  have hopen : (removeFinished wl tl (tl i).sched s.active_ids).Perm _ := removeFinished_perm i h
  simp only [checkEvt, schedEvt, addActive_conflicts, recordConflict_conflicts, hopen.mem_iff]

-- The sweep holds the active transactions that `track` holds, whatever their order, and has
-- seen a conflict iff some transaction met one among those then open.
theorem foldl_checkEvt (ids : List (Fin wl.num_txns)) :
    let s := (ids.map (schedEvt wl tl)).foldl (checkEvt wl tl num_puppets) ⟨[], 0, []⟩
    s.active_ids.Perm
        (ids.foldl (track (fun i => (tl i).sched) (fun i => (tl i).done) num_puppets) []) ∧
      (s.conflicts ≠ 0 ↔ ∃ before j, before ++ [j] <+: ids ∧
        ∃ i ∈ visible (fun i => (tl i).sched) (fun i => (tl i).done) num_puppets before j,
          check_txn_conflict (wl.txns j) (wl.txns i) = true) := by
  induction ids using List.reverseRecOn with
  | nil => simp
  | append_singleton ids i ih =>
      obtain ⟨hactive, hconflicts⟩ := ih
      simp only [List.map_append, List.map_cons, List.map_nil, List.foldl_append, List.foldl_cons,
        List.foldl_nil]
      refine ⟨checkEvt_active_ids _ i hactive, ?_⟩
      rw [checkEvt_conflicts _ i hactive, hconflicts]
      constructor
      · rintro (⟨before, j, hpre, h⟩ | h)
        · exact ⟨before, j, hpre.trans (List.prefix_append ids [i]), h⟩
        · exact ⟨ids, i, List.prefix_refl _, h⟩
      · rintro ⟨before, j, hpre, h⟩
        rcases List.prefix_concat_iff.mp hpre with heq | hpre
        · obtain ⟨rfl, hij⟩ := List.append_inj' heq rfl
          obtain rfl := List.singleton_inj.mp hij
          exact Or.inr h
        · exact Or.inl ⟨before, j, hpre, h⟩

-- The checks find a conflict iff there is one with a transaction that is recorded.
theorem conflictChecks_conflicts (hdistinct : DistinctSched tl) :
    (conflictChecks wl tl num_puppets).conflicts ≠ 0 ↔
      ∃ i j, Clash wl tl i j ∧ Recorded tl num_puppets i := by
  unfold conflictChecks
  rw [sched_eq_map, (foldl_checkEvt (schedIds tl)).2,
    (swept_schedIds hdistinct).exists_visible_iff fun i hi => mem_schedIds.mpr hi]
  constructor
  · rintro ⟨i, hi, j, hj, hlt, hopen, hconflict, htracked⟩
    rw [check_txn_conflict_comm] at hconflict
    exact ⟨i, j, ⟨hi, hj, hlt, hopen, hconflict⟩, htracked⟩
  · rintro ⟨i, j, ⟨hi, hj, hlt, hopen, hconflict⟩, htracked⟩
    rw [check_txn_conflict_comm] at hconflict
    exact ⟨i, hi, j, hj, hlt, hopen, hconflict, htracked⟩

-- The array has places for more transactions than are ever put into it.
theorem conflictChecks_active_ids_length :
    (conflictChecks wl tl num_puppets).active_ids.length ≤ num_puppets := by
  unfold conflictChecks
  rw [sched_eq_map, (foldl_checkEvt (schedIds tl)).1.length_eq]
  exact foldl_track_length _

-- The checks are exact iff, where there are conflicts, one is with a recorded transaction.
theorem conflictChecks_exact_iff (hdistinct : DistinctSched tl) :
    ((conflictChecks wl tl num_puppets).conflicts ≠ 0 ↔ ∃ i j, Clash wl tl i j) ↔
      ((∃ i j, Clash wl tl i j) → ∃ i j, Clash wl tl i j ∧ Recorded tl num_puppets i) := by
  rw [conflictChecks_conflicts hdistinct]
  constructor
  · intro h
    exact h.mpr
  · intro h
    refine ⟨?_, h⟩
    rintro ⟨i, j, hclash, -⟩
    exact ⟨i, j, hclash⟩

end

-- Two transactions that write one object are at work on one puppet.
def twoWriters : Workload where
  num_txns := 2
  txns i := Txn.writing i.val 7
  num_txns_lt := by decide

def twoWritersTimeline (i : Fin twoWriters.num_txns) : Timeline where
  submit := 1
  sched := 2 + i.val
  work := 4
  done := 9
  cleanup := 9

theorem conflictChecks_exact_iff_twoWriters : DistinctSched twoWritersTimeline ∧
    (((conflictChecks twoWriters twoWritersTimeline 1).conflicts ≠ 0 ↔
        ∃ i j, Clash twoWriters twoWritersTimeline i j) ↔
      ((∃ i j, Clash twoWriters twoWritersTimeline i j) →
        ∃ i j, Clash twoWriters twoWritersTimeline i j ∧ Recorded twoWritersTimeline 1 i)) :=
  have hdistinct : DistinctSched twoWritersTimeline := by
    unfold DistinctSched
    decide
  ⟨hdistinct, conflictChecks_exact_iff hdistinct⟩

section

variable {wl : Workload} {tl : Fin wl.num_txns → Timeline} {num_puppets : ℕ}

-- The considered transactions that are at work at some time.
def atWork {n : ℕ} (tl : Fin n → Timeline) (now : ℕ) : Set (Fin n) :=
  {i | (tl i).considered ∧ (tl i).sched ≤ now ∧ now ≤ (tl i).done}

-- With no more transactions at work than there are puppets, the checks are exact.
theorem conflictChecks_conflicts_of_atWork_le (hdistinct : DistinctSched tl)
    (hwork : ∀ now, (atWork tl now).ncard ≤ num_puppets) :
    (conflictChecks wl tl num_puppets).conflicts ≠ 0 ↔ ∃ i j, Clash wl tl i j := by
  rw [conflictChecks_conflicts hdistinct]
  constructor
  · rintro ⟨i, j, hclash, -⟩
    exact ⟨i, j, hclash⟩
  · rintro ⟨i, j, hclash⟩
    refine ⟨i, j, hclash, tracked_of_ncard_lt (Set.toFinite _) ?_⟩
    -- `i` itself takes one of the places
    have hmem : i ∈ atWork tl (tl i).sched := by
      obtain ⟨hsome, horder⟩ := hclash.1
      exact ⟨hclash.1, Nat.le_refl _, by omega⟩
    refine lt_of_lt_of_le (Set.ncard_lt_ncard ?_ (Set.toFinite _)) (hwork (tl i).sched)
    refine ⟨?_, fun hsub => ?_⟩
    · rintro h ⟨hh, hlt, hopen⟩
      exact ⟨hh, hlt.le, hopen.le⟩
    · exact lt_irrefl _ (hsub hmem).2.1

end

-- A third transaction takes the one place there is for a puppet.
def crowded : Workload where
  num_txns := 3
  txns i := Txn.writing i.val (if i = 0 then 3 else 7)
  num_txns_lt := by decide

def crowdedTimeline (i : Fin crowded.num_txns) : Timeline where
  submit := 1
  sched := 2 + i.val
  work := 5
  done := 9
  cleanup := 9

theorem conflictChecks_misses : ¬ ∀ (wl : Workload) (tl : Fin wl.num_txns → Timeline)
    (num_puppets : ℕ), 1 ≤ num_puppets → num_puppets ≤ MAX_PUPPETS →
    (Function.Injective fun i => (tl i).sched) →
    (∀ now, (atWork tl now).ncard ≤ MAX_ACTIVE_PER_PUPPET * num_puppets) →
    ((conflictChecks wl tl num_puppets).conflicts ≠ 0 ↔ ∃ i j, Clash wl tl i j) := by
  intro h
  have hwork (now : ℕ) : (atWork crowdedTimeline now).ncard ≤ MAX_ACTIVE_PER_PUPPET * 1 := by
    refine (Set.ncard_le_card _).trans ?_
    rw [Nat.card_eq_fintype_card, Fintype.card_fin]
    decide
  have hiff := h crowded crowdedTimeline 1 (by decide) (by decide) (by decide) hwork
  have hclash : Clash crowded crowdedTimeline ⟨1, by decide⟩ ⟨2, by decide⟩ := by
    unfold Clash
    decide
  exact hiff.mpr ⟨_, _, hclash⟩ (by decide)

end Puppetmaster.Runner
