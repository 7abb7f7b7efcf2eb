import Puppetmaster.Runner.Generate.Rules
import Mathlib.Order.Defs.LinearOrder

namespace Puppetmaster.Runner

open Library

namespace Zipf

variable {α : Type} [LinearOrder α] {cdf : List α} {r : α}

theorem le_mono (hsorted : cdf.Pairwise (· ≤ ·)) {i j : ℕ} (hij : i ≤ j) (hj : j < cdf.length)
    (h : le cdf r i = true) : le cdf r j = true := by
  rcases Nat.eq_or_lt_of_le hij with rfl | hij
  · exact h
  · rw [le_eq (by omega), decide_eq_true_eq] at h
    rw [le_eq hj, decide_eq_true_eq]
    exact h.trans (List.pairwise_iff_getElem.mp hsorted i j (by omega) hj hij)

-- The first place for which the array is not below the random number, or the last place.
theorem sample_zipf_first (hpos : 1 ≤ cdf.length) (hlt : cdf.length < 2 ^ 30)
    (hsorted : cdf.Pairwise (· ≤ ·)) (r : α) :
    ∃ i, ∃ hi : i < cdf.length, sample_zipf cdf r = .ok i ∧
      ((∃ j, ∃ hj : j < cdf.length, r ≤ cdf[j]) → r ≤ cdf[i] ∧ ∀ j (hj : j < i), ¬ r ≤ cdf[j]) ∧
      ((¬ ∃ j, ∃ hj : j < cdf.length, r ≤ cdf[j]) → i = cdf.length - 1) := by
  obtain ⟨i, hsample⟩ := Zipf.searchable_iff.mp (Or.inl (by omega) : Searchable cdf r)
  obtain ⟨-, hbefore, hfound⟩ := search_first (sample_zipf_eq_ok.mp hsample) (Nat.zero_le _)
    fun i j hij hj => le_mono hsorted hij (by omega)
  have hi : i < cdf.length := sample_zipf_lt hpos hsample
  refine ⟨i, hi, hsample, ?_, ?_⟩
  · rintro ⟨j, hj, hle⟩
    have hbefore (k : ℕ) (hk : k < i) : ¬ r ≤ cdf[k] := by
      have h := hbefore k (Nat.zero_le k) hk
      rwa [le_eq (by omega), decide_eq_false_iff_not] at h
    refine ⟨?_, hbefore⟩
    by_cases hlast : i < cdf.length - 1
    · have h := hfound hlast
      rwa [le_eq hi, decide_eq_true_eq] at h
    · have hij : i ≤ j := Nat.le_of_not_lt fun hji => hbefore j hji hle
      obtain rfl : j = i := by omega
      exact hle
  · intro hnone
    by_contra hne
    have h := hfound (by omega)
    rw [le_eq hi, decide_eq_true_eq] at h
    exact hnone ⟨i, hi, h⟩

def repeated : List ℕ := [1, 3, 3, 7]

theorem sample_zipf_first_repeated :
    ∃ i, ∃ hi : i < repeated.length, sample_zipf repeated 2 = .ok i ∧
      2 ≤ repeated[i] ∧ ∀ j (hj : j < i), ¬ 2 ≤ repeated[j] := by
  obtain ⟨i, hi, hsample, hfound, -⟩ :=
    sample_zipf_first (show 1 ≤ repeated.length by decide) (by decide) (by decide) 2
  exact ⟨i, hi, hsample, hfound ⟨1, by decide, by decide⟩⟩

end Zipf

end Puppetmaster.Runner
