import Mathlib.Data.List.Pairwise
import Mathlib.Logic.Basic

namespace Puppetmaster.Library

-- Any two distinct entries of a family of lists are related by `R`: two positions
-- of one list as well as two entries of different lists.
structure Apart {ι α : Type*} (R : α → α → Prop) (lists : ι → List α) : Prop where
  within : ∀ p, (lists p).Pairwise R
  across : ∀ p q, p ≠ q → ∀ a ∈ lists p, ∀ b ∈ lists q, R a b

namespace Apart

variable {ι α : Type*} {R : α → α → Prop} {lists next : ι → List α}

theorem of_empty (h : ∀ p, lists p = []) : Apart R lists where
  within p := by simp [h p]
  across p q _ a ha := by simp [h p] at ha

theorem congr (h : Apart R lists) (heq : ∀ p, next p = lists p) : Apart R next := by
  obtain rfl : next = lists := funext heq
  exact h

-- Removing entries keeps the rest apart.
theorem shrink (h : Apart R lists) (hsub : ∀ p, (next p).Sublist (lists p)) : Apart R next where
  within p := (h.within p).sublist (hsub p)
  across p q hne a ha b hb := h.across p q hne a ((hsub p).mem ha) b ((hsub q).mem hb)

-- One list grows by an element that is apart from everything already there.
theorem append (h : Apart R lists) (hsymm : ∀ a b, R a b → R b a) (p : ι) (x : α)
    (hp : next p = lists p ++ [x]) (hother : ∀ q, q ≠ p → next q = lists q)
    (hx : ∀ q, ∀ a ∈ lists q, R a x) : Apart R next where
  within q := by
    by_cases hq : q = p
    · subst hq
      rw [hp, List.pairwise_append]
      refine ⟨h.within q, List.pairwise_singleton R x, fun a ha b hb => ?_⟩
      obtain rfl := List.mem_singleton.mp hb
      exact hx q a ha
    · rw [hother q hq]
      exact h.within q
  across q r hne a ha b hb := by
    have hmem : ∀ t, ∀ c ∈ next t, c ∈ lists t ∨ (t = p ∧ c = x) := by
      intro t c hc
      by_cases ht : t = p
      · subst ht
        rw [hp, List.mem_append, List.mem_singleton] at hc
        exact hc.imp_right fun hcx => ⟨rfl, hcx⟩
      · exact Or.inl (hother t ht ▸ hc)
    rcases hmem q a ha with ha | ⟨rfl, rfl⟩
    · rcases hmem r b hb with hb | ⟨rfl, rfl⟩
      · exact h.across q r hne a ha b hb
      · exact hx q a ha
    · rcases hmem r b hb with hb | ⟨rfl, rfl⟩
      · exact hsymm _ _ (hx r b hb)
      · exact absurd rfl hne

end Apart

end Puppetmaster.Library
