import Mathlib.Data.Nat.Notation
import Mathlib.Tactic.Common

namespace Puppetmaster.Library

-- The search by halves for the first place where a comparison holds, in a machine integer: the
-- sum of the two bounds has to stay below a limit.
def search (limit : ℕ) (le : ℕ → Bool) (lo hi : ℕ) : Option ℕ :=
  if _ : lo < hi then
    if lo + hi < limit then
      if le ((lo + hi) / 2) then search limit le lo ((lo + hi) / 2)
      else search limit le ((lo + hi) / 2 + 1) hi
    else none
  else some lo
termination_by hi - lo

-- The places that a search which goes up in every turn compares before the sum is too large.
def climb (limit lo hi : ℕ) : List ℕ :=
  if _ : lo < hi then
    if lo + hi < limit then (lo + hi) / 2 :: climb limit ((lo + hi) / 2 + 1) hi else []
  else []
termination_by hi - lo

variable {limit lo hi x : ℕ} {le : ℕ → Bool}

-- The search stays between its bounds.
theorem search_le (h : search limit le lo hi = some x) (hle : lo ≤ hi) : x ≤ hi := by
  fun_induction search limit le lo hi with
  | case1 lo hi hlt _ _ ih => exact Nat.le_trans (ih h (by omega)) (by omega)
  | case2 lo hi hlt _ _ ih => exact ih h (by omega)
  | case3 => cases h
  | case4 lo hi _ =>
      cases h
      exact hle

-- Below half of the limit no sum is too large.
theorem search_total (hhi : 2 * hi ≤ limit) : ∃ x, search limit le lo hi = some x := by
  fun_induction search limit le lo hi with
  | case1 lo hi hlt _ _ ih => exact ih (by omega)
  | case2 lo hi hlt _ _ ih => exact ih hhi
  | case3 lo hi hlt hsum => omega
  | case4 lo hi _ => exact ⟨lo, rfl⟩

-- Above it, a turn down leads below half of the limit, and a search that takes none cannot end.
theorem search_total_iff (hhi : limit + 1 < 2 * hi) (hlt : lo < hi) :
    (∃ x, search limit le lo hi = some x) ↔ ∃ i ∈ climb limit lo hi, le i = true := by
  fun_induction climb limit lo hi with
  | case1 lo _ hsum ih =>
      rw [search, dif_pos hlt, if_pos hsum]
      by_cases hmid : le ((lo + hi) / 2) = true
      · rw [if_pos hmid]
        have htotal : ∃ x, search limit le lo ((lo + hi) / 2) = some x := search_total (by omega)
        exact iff_of_true htotal ⟨_, List.mem_cons_self, hmid⟩
      · rw [if_neg hmid, ih (by omega)]
        simp [hmid]
  | case2 lo _ hsum =>
      rw [search, dif_pos hlt, if_neg hsum]
      simp
  | case3 lo hge => exact absurd hlt hge

-- Where the comparison does not turn back, the search ends at the first place for which it holds,
-- or at the last place there is.
theorem search_first (h : search limit le lo hi = some x) (hle : lo ≤ hi)
    (hmono : ∀ i j, i ≤ j → j ≤ hi → le i = true → le j = true) :
    lo ≤ x ∧ (∀ j, lo ≤ j → j < x → le j = false) ∧ (x < hi → le x = true) := by
  fun_induction search limit le lo hi with
  | case1 lo hi hlt _ hmid ih =>
      obtain ⟨hlo, hbefore, hfound⟩ :=
        ih h (by omega) fun i j hij hj => hmono i j hij (by omega)
      refine ⟨hlo, hbefore, fun _ => ?_⟩
      have hx : x ≤ (lo + hi) / 2 := search_le h (by omega)
      rcases Nat.lt_or_eq_of_le hx with hx | rfl
      · exact hfound hx
      · exact hmid
  | case2 lo hi hlt _ hmid ih =>
      obtain ⟨hlo, hbefore, hfound⟩ := ih h (by omega) hmono
      refine ⟨by omega, fun j hj hjx => ?_, hfound⟩
      by_cases hj' : j ≤ (lo + hi) / 2
      · exact Bool.eq_false_iff.mpr fun hjle => hmid (hmono j _ hj' (by omega) hjle)
      · exact hbefore j (by omega) hjx
  | case3 => cases h
  | case4 lo hi hge =>
      cases h
      exact ⟨Nat.le_refl x, fun j hj hjx => by omega, fun hx => by omega⟩

end Puppetmaster.Library
