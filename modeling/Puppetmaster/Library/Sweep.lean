import Mathlib.Data.Set.Card
import Mathlib.Order.WellFounded

namespace Puppetmaster.Library

-- A sweep over intervals in the order of their starts. It keeps the intervals that are
-- still open, as long as there are fewer of them than it has places for.

variable {ι τ : Type*} [LinearOrder τ] (start finish : ι → τ) (capacity : ℕ)

def stillOpen (active : List ι) (e : ι) : List ι := active.filter fun i => start e < finish i

def track (active : List ι) (e : ι) : List ι :=
  if (stillOpen start finish active e).length < capacity then stillOpen start finish active e ++ [e]
  else stillOpen start finish active e

-- The intervals kept when `e` starts, after those in `before`.
def visible (before : List ι) (e : ι) : List ι :=
  stillOpen start finish (before.foldl (track start finish capacity) []) e

-- An interval is kept when fewer than `capacity` of the kept ones are open at its start.
def Tracked [WellFoundedLT τ] (items : Set ι) (i : ι) : Prop :=
  Set.ncard {h | h ∈ items ∧ start i < finish h ∧ ∃ _ : start h < start i, Tracked items h} < capacity
termination_by wellFounded_lt.wrap (start i)

section

variable {start finish capacity}

theorem stillOpen_perm {active active' : List ι} (h : active.Perm active') (e : ι) :
    (stillOpen start finish active e).Perm (stillOpen start finish active' e) := h.filter _

theorem mem_stillOpen {active : List ι} {e i : ι} :
    i ∈ stillOpen start finish active e ↔ i ∈ active ∧ start e < finish i := by
  simp [stillOpen]

theorem track_sublist {active before : List ι} (h : active.Sublist before) (e : ι) :
    (track start finish capacity active e).Sublist (before ++ [e]) := by
  have hopen : (stillOpen start finish active e).Sublist before := List.filter_sublist.trans h
  unfold track
  split_ifs
  · exact hopen.append (List.Sublist.refl [e])
  · exact hopen.trans (List.sublist_append_left before [e])

theorem foldl_track_sublist (before : List ι) :
    (before.foldl (track start finish capacity) []).Sublist before := by
  induction before using List.reverseRecOn with
  | nil => exact List.Sublist.refl []
  | append_singleton before b ih =>
      rw [List.foldl_append]
      exact track_sublist ih b

theorem track_length_le {active : List ι} (h : active.length ≤ capacity) (e : ι) :
    (track start finish capacity active e).length ≤ capacity := by
  unfold track
  split_ifs with hroom
  · rw [List.length_append, List.length_singleton]
    exact hroom
  · exact (List.length_filter_le _ active).trans h

theorem foldl_track_length (before : List ι) :
    (before.foldl (track start finish capacity) []).length ≤ capacity := by
  induction before using List.reverseRecOn with
  | nil => exact Nat.zero_le _
  | append_singleton before b ih =>
      rw [List.foldl_append]
      exact track_length_le ih b

theorem visible_sublist (before : List ι) (e : ι) :
    (visible start finish capacity before e).Sublist before :=
  List.filter_sublist.trans (foldl_track_sublist before)

theorem mem_visible_snoc {before : List ι} {b e i : ι} :
    i ∈ visible start finish capacity (before ++ [b]) e ↔
      (i ∈ visible start finish capacity before b ∨
        (visible start finish capacity before b).length < capacity ∧ i = b) ∧ start e < finish i := by
  unfold visible
  rw [List.foldl_append, List.foldl_cons, List.foldl_nil, mem_stillOpen]
  refine and_congr_left fun _ => ?_
  rw [track]
  split_ifs with hroom
  · simp [hroom]
  · simp [hroom]

theorem ncard_mem_list {l : List ι} (h : l.Nodup) : Set.ncard {x | x ∈ l} = l.length := by
  classical
  rw [← List.toFinset_card_of_nodup h, ← Set.ncard_coe_finset]
  exact congrArg Set.ncard (by ext x; simp)

end

-- A first part of the intervals, in the order of their starts.
structure Swept (start : ι → τ) (items : Set ι) (events : List ι) : Prop where
  sorted : events.Pairwise fun a b => start a < start b
  within : ∀ i ∈ events, i ∈ items
  closed : ∀ i ∈ items, ∀ j ∈ events, start i < start j → i ∈ events

namespace Swept

variable {start finish capacity} {items : Set ι} {before events : List ι} {e i : ι}

theorem nodup (h : Swept start items events) : events.Nodup := by
  refine List.Pairwise.imp (fun hlt heq => ?_) h.sorted
  rw [heq] at hlt
  exact lt_irrefl _ hlt

theorem last_lt (h : Swept start items (before ++ [e])) (hi : i ∈ before) : start i < start e :=
  (List.pairwise_append.mp h.sorted).2.2 i hi e (List.mem_singleton_self e)

theorem init (h : Swept start items (before ++ [e])) : Swept start items before where
  sorted := (List.pairwise_append.mp h.sorted).1
  within i hi := h.within i (List.mem_append_left _ hi)
  closed i hi j hj hlt := by
    rcases List.mem_append.mp (h.closed i hi j (List.mem_append_left _ hj) hlt) with hmem | hmem
    · exact hmem
    · obtain rfl := List.mem_singleton.mp hmem
      exact absurd (hlt.trans (h.last_lt hj)) (lt_irrefl _)

theorem mem_before (h : Swept start items (before ++ [e])) (hi : i ∈ items)
    (hlt : start i < start e) : i ∈ before := by
  rcases List.mem_append.mp (h.closed i hi e (by simp) hlt) with hmem | hmem
  · exact hmem
  · obtain rfl := List.mem_singleton.mp hmem
    exact absurd hlt (lt_irrefl _)

theorem of_isPrefix (h : Swept start items events) (hpre : before <+: events) :
    Swept start items before := by
  obtain ⟨after, rfl⟩ := hpre
  induction after using List.reverseRecOn with
  | nil => simpa using h
  | append_singleton after b ih =>
      rw [← List.append_assoc] at h
      exact ih h.init

variable [WellFoundedLT τ]

-- What is kept at the start of `e` is what the intervals say, in whatever order they are.
theorem mem_visible (h : Swept start items (before ++ [e])) :
    i ∈ visible start finish capacity before e ↔ i ∈ items ∧ start i < start e ∧
      start e < finish i ∧ Tracked start finish capacity items i := by
  induction before using List.reverseRecOn generalizing e i with
  | nil =>
      simp only [visible, stillOpen, List.foldl_nil, List.filter_nil, List.not_mem_nil, false_iff]
      rintro ⟨hi, hlt, -⟩
      exact absurd (h.mem_before hi hlt) List.not_mem_nil
  | append_singleton before b ih =>
      have hinit := h.init
      have hbe : start b < start e := h.last_lt (by simp)
      -- the number of places taken when `b` starts is the number that `Tracked` counts
      have htracked : (visible start finish capacity before b).length < capacity ↔
          Tracked start finish capacity items b := by
        rw [Tracked, ← ncard_mem_list ((visible_sublist before b).nodup hinit.init.nodup)]
        refine iff_of_eq (congrArg (fun s => Set.ncard s < capacity) (Set.ext fun h => ?_))
        rw [Set.mem_ofPred_eq, Set.mem_ofPred_eq, ih hinit, exists_prop]
        tauto
      rw [mem_visible_snoc, ih hinit, htracked]
      constructor
      · rintro ⟨⟨hi, hlt, -, ht⟩ | ⟨ht, rfl⟩, hfinish⟩
        · exact ⟨hi, hlt.trans hbe, hfinish, ht⟩
        · exact ⟨hinit.within _ (by simp), hbe, hfinish, ht⟩
      · rintro ⟨hi, hlt, hfinish, ht⟩
        refine ⟨?_, hfinish⟩
        rcases List.mem_append.mp (h.mem_before hi hlt) with hmem | hmem
        · exact Or.inl ⟨hi, hinit.last_lt hmem, hbe.trans hfinish, ht⟩
        · obtain rfl := List.mem_singleton.mp hmem
          exact Or.inr ⟨ht, rfl⟩

-- A sweep over all of them meets, of every two that overlap, the first at the start of the
-- second, if the first is kept.
theorem exists_visible_iff (h : Swept start items events) (hall : ∀ i ∈ items, i ∈ events)
    (meets : ι → ι → Prop) :
    (∃ before e, before ++ [e] <+: events ∧
      ∃ i ∈ visible start finish capacity before e, meets e i) ↔
    ∃ i ∈ items, ∃ j ∈ items, start i < start j ∧ start j < finish i ∧ meets j i ∧
      Tracked start finish capacity items i := by
  constructor
  · rintro ⟨before, e, hpre, i, hi, hmeets⟩
    have hswept := h.of_isPrefix hpre
    obtain ⟨hitem, hlt, hfinish, ht⟩ := hswept.mem_visible.mp hi
    exact ⟨i, hitem, e, hswept.within e (by simp), hlt, hfinish, hmeets, ht⟩
  · rintro ⟨i, hi, j, hj, hlt, hfinish, hmeets, ht⟩
    obtain ⟨before, after, hevents⟩ := List.append_of_mem (hall j hj)
    have hpre : before ++ [j] <+: events := ⟨after, by rw [hevents]; simp⟩
    have hswept := h.of_isPrefix hpre
    exact ⟨before, j, hpre, i, hswept.mem_visible.mpr ⟨hi, hlt, hfinish, ht⟩, hmeets⟩

end Swept

-- While there are places for all that are open, all are kept.
theorem tracked_of_ncard_lt [WellFoundedLT τ] {start finish : ι → τ} {capacity : ℕ} {items : Set ι}
    (hitems : items.Finite) {i : ι}
    (h : Set.ncard {h | h ∈ items ∧ start h < start i ∧ start i < finish h} < capacity) :
    Tracked start finish capacity items i := by
  rw [Tracked]
  refine lt_of_le_of_lt (Set.ncard_le_ncard ?_ (hitems.subset fun h hh => hh.1)) h
  rintro h ⟨hh, hfinish, hlt, -⟩
  exact ⟨hh, hlt, hfinish⟩

end Puppetmaster.Library
