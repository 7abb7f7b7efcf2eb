import Mathlib.Data.Set.Basic
import Mathlib.Tactic.Common

namespace Puppetmaster.Library

-- Bits in words of 64.
abbrev Bitmap (words : ℕ) := Vector (BitVec 64) words

namespace Bitmap

variable {words : ℕ}

def empty (words : ℕ) : Bitmap words := Vector.replicate words 0

theorem div_lt (p : Fin (words * 64)) : p.val / 64 < words := by
  have hp := p.isLt
  omega

def mask (p : Fin (words * 64)) : BitVec 64 := 1#64 <<< (p.val % 64)

def word (m : Bitmap words) (p : Fin (words * 64)) : BitVec 64 := m.get ⟨p.val / 64, div_lt p⟩

def set (m : Bitmap words) (p : Fin (words * 64)) : Bitmap words :=
  Vector.set m (p.val / 64) (m.word p ||| mask p) (div_lt p)

def test (m : Bitmap words) (p : Fin (words * 64)) : Bool := decide (m.word p &&& mask p ≠ 0)

theorem mask_eq (p : Fin (words * 64)) : mask p = BitVec.twoPow 64 (p.val % 64) := rfl

theorem test_eq (m : Bitmap words) (p : Fin (words * 64)) :
    m.test p = (m.word p).getLsbD (p.val % 64) := by
  have hlt : p.val % 64 < 64 := Nat.mod_lt _ (by decide)
  have hne : BitVec.twoPow 64 (p.val % 64) ≠ 0 := by
    intro h
    have hbit := congrArg (fun w : BitVec 64 => w.getLsbD (p.val % 64)) h
    simp [hlt] at hbit
  rw [test, mask_eq, BitVec.and_twoPow]
  split_ifs with h
  · rw [h]
    exact decide_eq_true hne
  · rw [Bool.not_eq_true] at h
    rw [h]
    exact decide_eq_false (not_not_intro rfl)

@[simp] theorem test_empty (p : Fin (words * 64)) : (empty words).test p = false := by
  have hword : (empty words).word p = 0 := Vector.getElem_replicate (div_lt p)
  rw [test_eq, hword]
  exact BitVec.getLsbD_zero

theorem word_set (m : Bitmap words) (p q : Fin (words * 64)) :
    (m.set p).word q = if p.val / 64 = q.val / 64 then m.word p ||| mask p else m.word q :=
  Vector.getElem_set (div_lt p) (div_lt q)

-- Setting a bit changes no other.
theorem test_set (m : Bitmap words) (p q : Fin (words * 64)) :
    (m.set p).test q = (decide (p = q) || m.test q) := by
  have hlt : p.val % 64 < 64 := Nat.mod_lt _ (by decide)
  have hsplit : p = q ↔ p.val / 64 = q.val / 64 ∧ p.val % 64 = q.val % 64 := by
    rw [Fin.ext_iff]
    omega
  rw [test_eq, test_eq, word_set]
  by_cases hword : p.val / 64 = q.val / 64
  · have hsame : m.word p = m.word q := congrArg m.get (Fin.ext hword)
    rw [if_pos hword, BitVec.getLsbD_or, mask_eq, BitVec.getLsbD_twoPow, hsame]
    simp only [hsplit, hlt, hword, decide_true, Bool.true_and, true_and]
    exact Bool.or_comm _ _
  · have hne : p ≠ q := fun h => hword (hsplit.mp h).1
    rw [if_neg hword, decide_eq_false hne, Bool.false_or]

end Bitmap

end Puppetmaster.Library
