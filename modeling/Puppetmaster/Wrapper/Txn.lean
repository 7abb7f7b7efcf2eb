import Mathlib.Data.List.FinRange
import Mathlib.Data.Set.Lattice

namespace Puppetmaster.Wrapper

-- pmhw.h

abbrev MAX_CLIENTS : ℕ := 1
abbrev MAX_PUPPETS : ℕ := 16
abbrev MAX_PENDING_PER_CLIENT : ℕ := 64
abbrev MAX_ACTIVE_PER_PUPPET : ℕ := 8
abbrev MAX_TXN_OBJS : ℕ := 16

theorem max_puppets_ne_zero : MAX_PUPPETS ≠ 0 := by decide

theorem two_le_max_txn_objs : 2 ≤ MAX_TXN_OBJS := by decide

instance : @NeZero ℕ Zero.ofOfNat0 MAX_PUPPETS := ⟨max_puppets_ne_zero⟩

abbrev ObjId := BitVec 32
abbrev TxnId := BitVec 32
abbrev AuxData := BitVec 32

structure Txn where
  id : TxnId
  aux_data : AuxData
  num_reads : ℕ
  num_writes : ℕ
  reads : Fin MAX_TXN_OBJS → ObjId
  writes : Fin MAX_TXN_OBJS → ObjId
  num_reads_le : num_reads ≤ MAX_TXN_OBJS
  num_writes_le : num_writes ≤ MAX_TXN_OBJS

namespace Txn

def read (t : Txn) (i : Fin t.num_reads) : ObjId := t.reads (i.castLE t.num_reads_le)

def write (t : Txn) (i : Fin t.num_writes) : ObjId := t.writes (i.castLE t.num_writes_le)

-- A transaction that writes one object and reads none.
def writing (id : TxnId) (obj : ObjId) : Txn where
  id := id
  aux_data := 0
  num_reads := 0
  num_writes := 1
  reads := fun _ => 0
  writes := fun _ => obj
  num_reads_le := by decide
  num_writes_le := by decide

end Txn

-- Each of the three loops of check_txn_conflict compares two counted arrays.
def anyEqual {m n : ℕ} (xs : Fin m → ObjId) (ys : Fin n → ObjId) : Bool :=
  (List.finRange m).any fun i => (List.finRange n).any fun j => xs i == ys j

def check_txn_conflict (a b : Txn) : Bool :=
  anyEqual a.read b.write || anyEqual a.write b.read || anyEqual a.write b.write

theorem anyEqual_iff {m n : ℕ} (xs : Fin m → ObjId) (ys : Fin n → ObjId) :
    anyEqual xs ys = true ↔ ∃ obj, obj ∈ Set.range xs ∧ obj ∈ Set.range ys := by
  simp only [anyEqual, List.any_eq_true, List.mem_finRange, true_and, beq_iff_eq, Set.mem_range]
  constructor
  · rintro ⟨i, j, h⟩
    exact ⟨ys j, ⟨i, h⟩, j, rfl⟩
  · rintro ⟨_, ⟨i, rfl⟩, j, h⟩
    exact ⟨i, j, h.symm⟩

theorem anyEqual_comm {m n : ℕ} (xs : Fin m → ObjId) (ys : Fin n → ObjId) :
    anyEqual xs ys = anyEqual ys xs := by
  rw [Bool.eq_iff_iff, anyEqual_iff, anyEqual_iff]
  simp only [and_comm]

theorem check_txn_conflict_comm (a b : Txn) : check_txn_conflict a b = check_txn_conflict b a := by
  unfold check_txn_conflict
  rw [anyEqual_comm a.read, anyEqual_comm a.write b.read, anyEqual_comm a.write b.write,
    Bool.or_comm (anyEqual b.write a.read)]

-- Two transactions conflict iff they share an object that at least one of them writes.
theorem check_txn_conflict_iff (a b : Txn) :
    check_txn_conflict a b = true ↔ ∃ obj,
      (obj ∈ Set.range a.read ∧ obj ∈ Set.range b.write) ∨
        (obj ∈ Set.range a.write ∧ obj ∈ Set.range b.read) ∨
        (obj ∈ Set.range a.write ∧ obj ∈ Set.range b.write) := by
  simp only [check_txn_conflict, Bool.or_eq_true, anyEqual_iff, exists_or, or_assoc]

end Puppetmaster.Wrapper
