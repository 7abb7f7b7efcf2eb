import Puppetmaster.Library.Merging
import Mathlib.Data.Finset.Sort

namespace Puppetmaster.Model

open Library

-- What is raised.
inductive Exn where
  | AssertionError (text : String)
  | IndexError
  | ValueError
  | ZeroDivisionError
deriving DecidableEq

-- What transactions use of a set; __and__ and __or__ may assert.
class PySet (σ : Type) where
  and : σ → σ → Except Exn σ
  or : σ → σ → Except Exn σ
  bool : σ → Bool

-- frozenset[int]
instance : PySet (Finset ℤ) where
  and s t := .ok (s ∩ t)
  or s t := .ok (s ∪ t)
  bool s := decide s.Nonempty

-- Sets that grow.
class MutableSet (σ : Type) extends PySet σ where
  add : σ → ℤ → Except Exn σ

-- The order in which a frozenset is iterated over.
structure FrozensetOrder (α : Type) where
  toList : Finset α → List α
  nodup : ∀ s, (toList s).Nodup
  mem : ∀ s a, a ∈ toList s ↔ a ∈ s

def sortedOrder (α : Type) [LinearOrder α] : FrozensetOrder α where
  toList s := s.sort
  nodup s := s.sort_nodup (· ≤ ·)
  mem s _ := s.mem_sort (· ≤ ·)

structure Transaction (σ : Type) where
  ids : Finset ℕ
  read_set : σ
  write_set : σ
deriving DecidableEq

namespace Transaction

variable {σ : Type} [PySet σ]

def compat (ts1 ts2 : Transaction σ) : Except Exn Bool := do
  let r1w2_set ← PySet.and ts1.read_set ts2.write_set
  let w1r2_set ← PySet.and ts1.write_set ts2.read_set
  let w1w2_set ← PySet.and ts1.write_set ts2.write_set
  let conflicts ← PySet.or (← PySet.or r1w2_set w1r2_set) w1w2_set
  return !PySet.bool conflicts

def merge (ts1 ts2 : Transaction σ) : Except Exn (Transaction σ) := do
  if ← ts1.compat ts2 then
    let read_set ← PySet.or ts1.read_set ts2.read_set
    let write_set ← PySet.or ts1.write_set ts2.write_set
    return { ids := ts1.ids ∪ ts2.ids, read_set, write_set }
  else throw (.AssertionError "Can only merge compatible transactions")

def Compatible (ts1 ts2 : Transaction σ) : Prop := ts1.compat ts2 = .ok true

instance (ts1 ts2 : Transaction (Finset ℤ)) : Decidable (ts1.Compatible ts2) :=
  inferInstanceAs (Decidable (_ = _))

end Transaction

-- Each filter is as a call of the family makes it.
def compress_transaction {σ : Type} [MutableSet σ] (order : FrozensetOrder ℤ)
    (transaction : Transaction (Finset ℤ)) (family : σ) : Except Exn (Transaction σ) := do
  let read_set ← (order.toList transaction.read_set).foldlM MutableSet.add family
  let write_set ← (order.toList transaction.write_set).foldlM MutableSet.add family
  return { ids := transaction.ids, read_set, write_set }

def compress_workload {σ : Type} [MutableSet σ] (order : FrozensetOrder ℤ)
    (workload : List (Transaction (Finset ℤ))) (family : σ) : Except Exn (List (Transaction σ)) :=
  workload.mapM fun txn => compress_transaction order txn family

-- A value of σ represents sets of objects. It may find an object that it has not seen, but finds
-- all that it has.
structure Abstraction (σ : Type) [PySet σ] where
  Rep : σ → Set ℤ → Prop
  and_ok : ∀ {s t X Y}, Rep s X → Rep t Y → ∃ u, PySet.and s t = .ok u ∧ Rep u (X ∩ Y)
  or_ok : ∀ {s t X Y}, Rep s X → Rep t Y → ∃ u, PySet.or s t = .ok u ∧ Rep u (X ∪ Y)
  bool_ok : ∀ {u X}, Rep u X → X.Nonempty → PySet.bool u = true

-- A frozenset is the set that it represents.
def exact : Abstraction (Finset ℤ) where
  Rep s X := ↑s = X
  and_ok := by
    rintro s t _ _ rfl rfl
    exact ⟨s ∩ t, rfl, Finset.coe_inter s t⟩
  or_ok := by
    rintro s t _ _ rfl rfl
    exact ⟨s ∪ t, rfl, Finset.coe_union s t⟩
  bool_ok := by
    rintro s _ rfl h
    exact decide_eq_true h

-- The objects about which two transactions conflict.
def conflictSet (read₁ write₁ read₂ write₂ : Set ℤ) : Set ℤ :=
  read₁ ∩ write₂ ∪ write₁ ∩ read₂ ∪ write₁ ∩ write₂

theorem conflictSet_comm (read₁ write₁ read₂ write₂ : Set ℤ) :
    conflictSet read₁ write₁ read₂ write₂ = conflictSet read₂ write₂ read₁ write₁ := by
  unfold conflictSet
  rw [Set.inter_comm write₁ write₂, Set.union_comm (read₁ ∩ write₂), Set.inter_comm read₁,
    Set.inter_comm write₁]

namespace Transaction

section

variable {σ : Type} [PySet σ] (rep : Abstraction σ) {ts1 ts2 : Transaction σ}
  {read₁ write₁ read₂ write₂ : Set ℤ}

-- Compatibility is read off a value that represents the conflicts.
theorem compat_eq (hr₁ : rep.Rep ts1.read_set read₁) (hw₁ : rep.Rep ts1.write_set write₁)
    (hr₂ : rep.Rep ts2.read_set read₂) (hw₂ : rep.Rep ts2.write_set write₂) :
    ∃ conflicts, rep.Rep conflicts (conflictSet read₁ write₁ read₂ write₂) ∧
      ts1.compat ts2 = .ok (!PySet.bool conflicts) := by
  obtain ⟨r1w2_set, h₁, hrep₁⟩ := rep.and_ok hr₁ hw₂
  obtain ⟨w1r2_set, h₂, hrep₂⟩ := rep.and_ok hw₁ hr₂
  obtain ⟨w1w2_set, h₃, hrep₃⟩ := rep.and_ok hw₁ hw₂
  obtain ⟨either, h₄, hrep₄⟩ := rep.or_ok hrep₁ hrep₂
  obtain ⟨conflicts, h₅, hrep₅⟩ := rep.or_ok hrep₄ hrep₃
  refine ⟨conflicts, hrep₅, ?_⟩
  simp only [compat, h₁, h₂, h₃, h₄, h₅, ok_bind]
  rfl

theorem conflictSet_eq_empty_of_compat (hr₁ : rep.Rep ts1.read_set read₁)
    (hw₁ : rep.Rep ts1.write_set write₁) (hr₂ : rep.Rep ts2.read_set read₂)
    (hw₂ : rep.Rep ts2.write_set write₂) (h : ts1.compat ts2 = .ok true) :
    conflictSet read₁ write₁ read₂ write₂ = ∅ := by
  obtain ⟨conflicts, hrep, hcompat⟩ := compat_eq rep hr₁ hw₁ hr₂ hw₂
  rw [hcompat] at h
  by_contra hne
  have hbool := rep.bool_ok hrep (Set.nonempty_iff_ne_empty.mpr hne)
  rw [hbool] at h
  cases h

theorem merge_eq (hr₁ : rep.Rep ts1.read_set read₁) (hw₁ : rep.Rep ts1.write_set write₁)
    (hr₂ : rep.Rep ts2.read_set read₂) (hw₂ : rep.Rep ts2.write_set write₂)
    (h : ts1.compat ts2 = .ok true) :
    ∃ ts, ts1.merge ts2 = .ok ts ∧ ts.ids = ts1.ids ∪ ts2.ids ∧
      rep.Rep ts.read_set (read₁ ∪ read₂) ∧ rep.Rep ts.write_set (write₁ ∪ write₂) := by
  obtain ⟨read_set, hread, hrep_read⟩ := rep.or_ok hr₁ hr₂
  obtain ⟨write_set, hwrite, hrep_write⟩ := rep.or_ok hw₁ hw₂
  refine ⟨⟨ts1.ids ∪ ts2.ids, read_set, write_set⟩, ?_, rfl, hrep_read, hrep_write⟩
  rw [merge, h, ok_bind, if_pos rfl, hread, ok_bind, hwrite]
  rfl

end

-- Without a false positive compatibility is that there is no conflict.
theorem compatible_iff {ts1 ts2 : Transaction (Finset ℤ)} : ts1.Compatible ts2 ↔
    conflictSet ts1.read_set ts1.write_set ts2.read_set ts2.write_set = ∅ := by
  have hself (s : Finset ℤ) : exact.Rep s s := rfl
  obtain ⟨conflicts, hrep, hcompat⟩ := compat_eq exact (hself ts1.read_set) (hself ts1.write_set)
    (hself ts2.read_set) (hself ts2.write_set)
  have hrep : (conflicts : Set ℤ) = _ := hrep
  rw [← hrep, Finset.coe_eq_empty, Compatible, hcompat]
  show Except.ok (!decide conflicts.Nonempty) = Except.ok true ↔ _
  rw [← Finset.not_nonempty_iff_eq_empty]
  by_cases h : conflicts.Nonempty <;> simp [h]

end Transaction

end Puppetmaster.Model
