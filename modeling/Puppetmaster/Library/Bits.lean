import Mathlib.Data.Nat.Bitwise
import Mathlib.Data.Nat.ModEq
import Mathlib.Data.Nat.Prime.Basic

namespace Puppetmaster.Library

-- A number put together from single bits of another: bit `j` is bit `source j` of `x`.
def gather (source : ℕ → ℕ) (length x : ℕ) : ℕ :=
  (List.range length).foldl (fun result j => result ||| (x >>> source j &&& 1) <<< j) 0

theorem testBit_gather (source : ℕ → ℕ) (length x j : ℕ) :
    (gather source length x).testBit j = (decide (j < length) && x.testBit (source j)) := by
  induction length with
  | zero => simp [gather]
  | succ length ih =>
      have hsucc : gather source (length + 1) x =
          gather source length x ||| (x >>> source length &&& 1) <<< length := by
        simp [gather, List.range_succ]
      have hone : ∀ i, Nat.testBit 1 i = decide (i = 0) := fun i => by
        cases i <;> simp [Nat.testBit_succ]
      rw [hsucc, Nat.testBit_or, ih, Nat.testBit_shiftLeft, Nat.testBit_and, Nat.testBit_shiftRight,
        hone]
      rcases Nat.lt_trichotomy j length with hlt | rfl | hgt
      · simp [hlt, Nat.lt_succ_of_lt hlt, Nat.not_le.mpr hlt]
      · simp
      · simp [show ¬j < length by omega, show ¬j < length + 1 by omega, show j - length ≠ 0 by omega]

-- Numbers of `length` bits are equal when their bits are.
theorem eq_of_testBit_lt {x y length : ℕ} (hx : x < 2 ^ length) (hy : y < 2 ^ length)
    (h : ∀ j < length, x.testBit j = y.testBit j) : x = y := by
  refine Nat.eq_of_testBit_eq fun j => ?_
  by_cases hj : j < length
  · exact h j hj
  · have hpow := Nat.pow_le_pow_right (Nat.succ_pos 1) (Nat.not_lt.mp hj)
    rw [Nat.testBit_lt_two_pow (hx.trans_le hpow), Nat.testBit_lt_two_pow (hy.trans_le hpow)]

theorem gather_lt (source : ℕ → ℕ) (length x : ℕ) : gather source length x < 2 ^ length := by
  refine Nat.lt_pow_two_of_testBit _ fun j hj => ?_
  rw [testBit_gather, decide_eq_false (Nat.not_lt.mpr hj), Bool.false_and]

-- An odd factor cancels modulo a power of two.
theorem mul_mod_two_pow_inj {x y c length : ℕ} (hc : c % 2 = 1) (hx : x < 2 ^ length)
    (hy : y < 2 ^ length) (h : x * c % 2 ^ length = y * c % 2 ^ length) : x = y := by
  have hcop : Nat.Coprime (2 ^ length) c :=
    Nat.Coprime.pow_left length (Nat.coprime_two_left.mpr (Nat.odd_iff.mpr hc))
  have hmod : x ≡ y [MOD 2 ^ length] := Nat.ModEq.cancel_right_of_coprime hcop h
  exact Nat.ModEq.eq_of_lt_of_lt hmod hx hy

end Puppetmaster.Library
