import Puppetmaster.Library.Fallible
import Mathlib.Data.List.Sort

namespace Puppetmaster.Runner

-- What the programs use of pmutils.h and of the C library.

-- How a function that cannot go on ends: FATAL prints a text and leaves the program, a signed
-- overflow or a write beyond an array has no meaning.
inductive Abort where
  | fatal (text : String)
  | undefined
deriving DecidableEq

def orFatal {α : Type*} (text : String) : Option α → Except Abort α
  | some a => .ok a
  | none => .error (.fatal text)

theorem orFatal_eq_ok {α : Type*} {text : String} {x : Option α} {a : α} :
    orFatal text x = .ok a ↔ x = some a := by
  cases x with
  | none => simp [orFatal]
  | some b => simp [orFatal]

@[simp] theorem orFatal_some {α : Type*} (text : String) (a : α) :
    orFatal text (some a) = .ok a := rfl

-- malloc finds memory for all that is not larger than PTRDIFF_MAX.
def mallocOk (size : BitVec 64) : Bool := !size.msb

-- qsort leaves the order of equal elements open, this keeps it.
def qsort {α : Type*} (compare : α → α → ℤ) (base : List α) : List α :=
  base.insertionSort fun a b => compare a b ≤ 0

theorem qsort_perm {α : Type*} (compare : α → α → ℤ) (base : List α) : (qsort compare base).Perm base :=
  List.perm_insertionSort _ base

-- A comparison of keys sorts by them.
theorem qsort_pairwise {α κ : Type*} [LinearOrder κ] {compare : α → α → ℤ} (key : α → κ)
    (hcompare : ∀ a b, compare a b ≤ 0 ↔ key a ≤ key b) (base : List α) :
    (qsort compare base).Pairwise fun a b => key a ≤ key b := by
  let r (a b : α) : Prop := compare a b ≤ 0
  have htotal : Std.Total r := ⟨fun a b => by
    show compare a b ≤ 0 ∨ compare b a ≤ 0
    rw [hcompare, hcompare]
    exact le_total (key a) (key b)⟩
  have htrans : IsTrans α r := ⟨fun a b c hab hbc => by
    show compare a c ≤ 0
    exact (hcompare a c).mpr (((hcompare a b).mp hab).trans ((hcompare b c).mp hbc))⟩
  exact (List.pairwise_insertionSort r base).imp fun h => (hcompare _ _).mp h

end Puppetmaster.Runner
