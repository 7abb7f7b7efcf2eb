import Mathlib.Algebra.BigOperators.Group.Finset.Piecewise
import Mathlib.Algebra.Order.Ring.Nat

namespace Puppetmaster.Library

variable {ι κ : Type*} [DecidableEq κ]

-- Count one more in the class that was found, if one was.
def bump (counts : κ → ℕ) : Option κ → κ → ℕ
  | some k => Function.update counts k (counts k + 1)
  | none => counts

def tally (index : ι → Option κ) (items : List ι) : κ → ℕ :=
  items.foldl (fun counts x => bump counts (index x)) fun _ => 0

theorem bump_apply (counts : κ → ℕ) (found : Option κ) (k : κ) :
    bump counts found k = counts k + if found = some k then 1 else 0 := by
  cases found with
  | none => rfl
  | some j =>
      by_cases hj : j = k
      · subst hj
        rw [bump, Function.update_self, if_pos rfl]
      · rw [bump, Function.update_of_ne (Ne.symm hj), if_neg (fun h => hj (Option.some.inj h))]
        rfl

theorem tally_snoc (index : ι → Option κ) (items : List ι) (x : ι) :
    tally index (items ++ [x]) = bump (tally index items) (index x) := by
  rw [tally, List.foldl_append]
  rfl

-- All classes together have counted the items that are in one.
theorem sum_tally [Fintype κ] (index : ι → Option κ) (items : List ι) :
    ∑ k, tally index items k = items.countP fun x => (index x).isSome := by
  induction items using List.reverseRecOn with
  | nil => simp [tally]
  | append_singleton items x ih =>
      have hone : (∑ k, if index x = some k then 1 else 0) = if (index x).isSome then 1 else 0 := by
        cases index x with
        | none => simp
        | some j => simp
      simp only [tally_snoc, bump_apply, Finset.sum_add_distrib, ih, hone, List.countP_append,
        List.countP_singleton]

end Puppetmaster.Library
