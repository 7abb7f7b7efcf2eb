import Mathlib.Order.SuccPred.IntervalSucc
import Mathlib.Algebra.Order.Ring.Nat
import Mathlib.Data.Nat.SuccPred

namespace Puppetmaster.Library

variable (n k : ℕ)

-- Where chunk `t` begins when `n` items are divided among `k`; it ends where the next one begins.
def chunkStart (t : ℕ) : ℕ := n * t / k

def InChunk (t i : ℕ) : Prop := chunkStart n k t ≤ i ∧ i < chunkStart n k (t + 1)

variable {n k}

theorem chunkStart_mono : Monotone (chunkStart n k) := fun _ _ h =>
  Nat.div_le_div_right (Nat.mul_le_mul_left n h)

theorem chunkStart_zero : chunkStart n k 0 = 0 := by
  rw [chunkStart, Nat.mul_zero, Nat.zero_div]

theorem chunkStart_last (hk : 0 < k) : chunkStart n k k = n := Nat.mul_div_cancel n hk

theorem chunkStart_le (hk : 0 < k) {t : ℕ} (ht : t ≤ k) : chunkStart n k t ≤ n :=
  (chunkStart_mono ht).trans_eq (chunkStart_last hk)

-- No item is in two chunks.
theorem InChunk.unique {t u i : ℕ} (ht : InChunk n k t i) (hu : InChunk n k u i) : t = u := by
  by_contra hne
  have hdisjoint := Monotone.pairwise_disjoint_on_Ico_succ (chunkStart_mono (n := n) (k := k)) hne
  exact Set.disjoint_left.mp hdisjoint ht hu

-- Every item is in one.
theorem exists_inChunk (hk : 0 < k) {i : ℕ} (hi : i < n) : ∃ t < k, InChunk n k t i := by
  have hsearch (j : ℕ) (hj : i < chunkStart n k j) : ∃ t < j, InChunk n k t i := by
    induction j with
    | zero =>
        rw [chunkStart_zero] at hj
        exact absurd hj (Nat.not_lt_zero i)
    | succ j ih =>
        by_cases hstart : chunkStart n k j ≤ i
        · exact ⟨j, Nat.lt_succ_self j, hstart, hj⟩
        · obtain ⟨t, ht, hmem⟩ := ih (Nat.not_le.mp hstart)
          exact ⟨t, ht.trans (Nat.lt_succ_self j), hmem⟩
  exact hsearch k (hi.trans_eq (chunkStart_last hk).symm)

end Puppetmaster.Library
