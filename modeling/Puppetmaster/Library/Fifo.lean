import Mathlib.Data.List.Basic
import Mathlib.Tactic.Ext

namespace Puppetmaster.Library

-- A first-in first-out queue that never holds more than `depth` elements, oldest first.
@[ext] structure Fifo (α : Type*) (depth : ℕ) where
  items : List α
  bound : items.length ≤ depth

namespace Fifo

variable {α : Type*} {depth : ℕ} {q q' : Fifo α depth} {x : α}

def empty : Fifo α depth := ⟨[], Nat.zero_le _⟩

def notEmpty (q : Fifo α depth) : Bool := !q.items.isEmpty

def first (q : Fifo α depth) : Option α := q.items.head?

theorem length_snoc_le (q : Fifo α depth) (x : α) (h : q.items.length < depth) :
    (q.items ++ [x]).length ≤ depth := by
  rw [List.length_append, List.length_singleton]
  exact h

def enq (q : Fifo α depth) (x : α) : Option (Fifo α depth) :=
  if h : q.items.length < depth then some ⟨q.items ++ [x], q.length_snoc_le x h⟩ else none

def deq (q : Fifo α depth) : Option (α × Fifo α depth) :=
  match q with
  | ⟨[], _⟩ => none
  | ⟨x :: rest, h⟩ => some (x, ⟨rest, Nat.le_of_succ_le h⟩)

@[simp] theorem items_empty : (empty : Fifo α depth).items = [] := rfl

-- The bound is a field, so what an operation does to the items says all of it.
theorem enq_eq_some : q.enq x = some q' ↔ q'.items = q.items ++ [x] := by
  unfold enq
  constructor
  · intro h
    split at h
    · obtain rfl := Option.some.inj h
      rfl
    · simp at h
  · intro h
    have hb := q'.bound
    rw [h, List.length_append, List.length_singleton] at hb
    rw [dif_pos (by omega)]
    exact congrArg some (Fifo.ext h.symm)

theorem deq_eq_some : q.deq = some (x, q') ↔ q.items = x :: q'.items := by
  cases q with
  | mk items bound =>
      cases items with
      | nil => simp [deq]
      | cons head rest =>
          simp only [deq, Option.some.injEq, Prod.mk.injEq, List.cons.injEq, Fifo.ext_iff]

theorem exists_enq (h : q.items.length < depth) (x : α) : ∃ q' : Fifo α depth, q'.items = q.items ++ [x] :=
  ⟨⟨q.items ++ [x], q.length_snoc_le x h⟩, rfl⟩

theorem exists_deq {rest : List α} (h : q.items = x :: rest) : ∃ q' : Fifo α depth, q'.items = rest := by
  have hbound := q.bound
  rw [h, List.length_cons] at hbound
  exact ⟨⟨rest, Nat.le_of_succ_le hbound⟩, rfl⟩

theorem first_eq_some : q.first = some x ↔ ∃ rest, q.items = x :: rest := by
  unfold first
  cases q.items with
  | nil => simp
  | cons head rest => simp

theorem notEmpty_eq_false : q.notEmpty = false ↔ q.items = [] := by
  simp [notEmpty]

end Fifo

end Puppetmaster.Library
