import Mathlib.Data.Set.Lattice

namespace Puppetmaster.Library.Bloom

-- A partitioned Bloom filter: an object has one position in each part, and the
-- filter is the set of (part, position) pairs that are marked.
variable {ι β : Type*}

def locations (loc : ι → β) : Set (ι × β) := {c | c.2 = loc c.1}

def insert (filter : Set (ι × β)) (objs : Set (ι → β)) : Set (ι × β) :=
  filter ∪ ⋃ loc ∈ objs, locations loc

def insertList (filter : Set (ι × β)) (list : List (Set (ι → β))) : Set (ι × β) :=
  list.foldl insert filter

def Hit (filter : Set (ι × β)) (loc : ι → β) : Prop := ∀ i, (i, loc i) ∈ filter

def Compatible (filter : Set (ι × β)) (objs : Set (ι → β)) : Prop :=
  ∀ loc ∈ objs, ¬Hit filter loc

variable {filter other : Set (ι × β)} {objs objs' : Set (ι → β)} {loc : ι → β} {c : ι × β}

@[simp] theorem mem_insert : c ∈ insert filter objs ↔ c ∈ filter ∨ ∃ loc ∈ objs, c.2 = loc c.1 := by
  simp [insert, locations]

theorem insert_comm : insert (insert filter objs) objs' = insert (insert filter objs') objs := by
  ext c
  simp only [mem_insert]
  exact or_right_comm

theorem insert_idem : insert (insert filter objs) objs = insert filter objs := by
  ext c
  simp only [mem_insert, or_assoc, or_self]

theorem mem_insertList (list : List (Set (ι → β))) :
    c ∈ insertList filter list ↔ c ∈ filter ∨ ∃ objs ∈ list, ∃ loc ∈ objs, c.2 = loc c.1 := by
  induction list generalizing filter with
  | nil => simp [insertList]
  | cons head rest ih =>
      have hcons : insertList filter (head :: rest) = insertList (insert filter head) rest := rfl
      rw [hcons, ih]
      simp only [mem_insert, List.mem_cons, exists_eq_or_imp, or_assoc]

theorem Hit.mono (h : Hit filter loc) (hsub : filter ⊆ other) : Hit other loc :=
  fun i => hsub (h i)

theorem hit_insert (hloc : loc ∈ objs) : Hit (insert filter objs) loc :=
  fun _ => mem_insert.mpr (Or.inr ⟨loc, hloc, rfl⟩)

-- No false negatives: whatever is added besides, an object shared with an
-- inserted set makes the query incompatible.
theorem not_compatible_of_shared (hloc : loc ∈ objs) (hloc' : loc ∈ objs')
    (hsub : insert filter objs ⊆ other) : ¬Compatible other objs' :=
  fun h => h loc hloc' ((hit_insert hloc).mono hsub)

end Puppetmaster.Library.Bloom
