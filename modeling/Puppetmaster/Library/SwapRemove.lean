import Mathlib.Data.List.Basic
import Mathlib.Data.List.Perm.Basic
import Mathlib.Order.Basic

namespace Puppetmaster.Library

variable {α : Type*}

-- Remove the entry at `w` of an array of live entries: the last one takes its place.
def swapRemove (active : List α) (w : ℕ) : List α :=
  match active.getLast? with
  | some last => (active.set w last).dropLast
  | none => active

-- Go through the entries from `w` on and remove those that are finished. A turn of the loop
-- takes one entry off the array or one step forward, so the length is enough fuel.
def removeLoop (finished : α → Bool) : ℕ → List α → ℕ → List α
  | 0, active, _ => active
  | fuel + 1, active, w =>
      match active[w]? with
      | some x =>
          if finished x then removeLoop finished fuel (swapRemove active w) w
          else removeLoop finished fuel active (w + 1)
      | none => active

theorem swapRemove_perm (front back : List α) (x : α) :
    ∃ rest, swapRemove (front ++ x :: back) front.length = front ++ rest ∧ rest.Perm back := by
  rcases List.eq_nil_or_concat back with rfl | ⟨init, last, rfl⟩
  · exact ⟨[], by simp [swapRemove], List.Perm.refl []⟩
  · rw [List.concat_eq_append]
    refine ⟨last :: init, ?_, (List.perm_append_singleton last init).symm⟩
    have hlast : (front ++ x :: (init ++ [last])).getLast? = some last := by
      rw [← List.cons_append, ← List.append_assoc, List.getLast?_concat]
    have hset : (front ++ x :: (init ++ [last])).set front.length last =
        (front ++ last :: init) ++ [last] := by
      simp
    simp only [swapRemove, hlast, hset, List.dropLast_concat]

-- What is left from `w` on is what was not finished, in some order.
theorem removeLoop_perm (finished : α → Bool) (fuel : ℕ) (front back : List α)
    (hfuel : back.length ≤ fuel) :
    (removeLoop finished fuel (front ++ back) front.length).Perm
      (front ++ back.filter fun x => !finished x) := by
  induction fuel generalizing front back with
  | zero =>
      obtain rfl := List.length_eq_zero_iff.mp (Nat.le_zero.mp hfuel)
      exact List.Perm.refl _
  | succ fuel ih =>
      cases back with
      | nil => simp [removeLoop]
      | cons x back =>
          have hget : (front ++ x :: back)[front.length]? = some x := by simp
          have hlen : back.length ≤ fuel := Nat.le_of_succ_le_succ hfuel
          rw [removeLoop, hget]
          cases hx : finished x with
          | true =>
              obtain ⟨rest, hswap, hrest⟩ := swapRemove_perm front back x
              simp only [if_true, hswap, List.filter_cons, hx, Bool.not_true, Bool.false_eq_true, if_false]
              exact (ih front rest (hrest.length_eq.trans_le hlen)).trans ((hrest.filter _).append_left front)
          | false =>
              have hnext := ih (front ++ [x]) back hlen
              rw [List.append_assoc, List.singleton_append, List.length_append,
                List.length_singleton] at hnext
              simpa [List.filter_cons, hx] using hnext

theorem removeLoop_zero_perm (finished : α → Bool) (active : List α) :
    (removeLoop finished active.length active 0).Perm (active.filter fun x => !finished x) :=
  removeLoop_perm finished active.length [] active (Nat.le_refl _)

end Puppetmaster.Library
