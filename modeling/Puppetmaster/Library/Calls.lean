import Mathlib.Data.Option.Defs
import Mathlib.Logic.Function.Basic
import Mathlib.Tactic.Common

namespace Puppetmaster.Library

-- Components that are called one at a time. One that is not there may come into being by a call.
section

variable {α β γ δ : Type}

theorem rel_some {r : α → β → Prop} {a : α} {y : Option β} (h : Option.Rel r (some a) y) :
    ∃ b, y = some b ∧ r a b := by
  cases h with
  | some h => exact ⟨_, rfl, h⟩

theorem rel_bind {r : α → β → Prop} {s : γ → δ → Prop} {x : Option α} {y : Option β}
    {f : α → Option γ} {g : β → Option δ} (h : Option.Rel r x y)
    (hfg : ∀ a b, r a b → Option.Rel s (f a) (g b)) : Option.Rel s (x.bind f) (y.bind g) := by
  cases h with
  | none => exact .none
  | some h => exact hfg _ _ h

theorem rel_map {r : α → β → Prop} {s : γ → δ → Prop} {x : Option α} {y : Option β} {f : α → γ}
    {g : β → δ} (h : Option.Rel r x y) (hfg : ∀ a b, r a b → s (f a) (g b)) :
    Option.Rel s (x.map f) (y.map g) := by
  cases h with
  | none => exact .none
  | some h => exact .some (hfg _ _ h)

end

section

variable {ι χ α σ τ : Type} [DecidableEq ι]

-- What the calls return, and the components after them.
def runCalls (answer : χ → Option σ → Option (α × σ)) :
    (ι → Option σ) → List (ι × χ) → Option (List α × (ι → Option σ))
  | s, [] => some ([], s)
  | s, (i, call) :: rest =>
      (answer call (s i)).bind fun (a, q) =>
        (runCalls answer (Function.update s i (some q)) rest).map fun (answers, t) => (a :: answers, t)

-- The same answer, and states that are related.
def Agree (R : σ → τ → Prop) (x : α × σ) (y : α × τ) : Prop := x.1 = y.1 ∧ R x.2 y.2

theorem rel_update {R : σ → τ → Prop} {s : ι → Option σ} {t : ι → Option τ}
    (h : ∀ i, Option.Rel R (s i) (t i)) {q : σ} {l : τ} (hql : R q l) (i j : ι) :
    Option.Rel R (Function.update s i (some q) j) (Function.update t i (some l) j) := by
  by_cases hj : j = i
  · subst hj
    rw [Function.update_self, Function.update_self]
    exact .some hql
  · rw [Function.update_of_ne hj, Function.update_of_ne hj]
    exact h j

-- Components that agree in each call agree in each sequence of calls.
theorem runCalls_agree {R : σ → τ → Prop} {f : χ → Option σ → Option (α × σ)}
    {g : χ → Option τ → Option (α × τ)}
    (hanswer : ∀ call q l, Option.Rel R q l → Option.Rel (Agree R) (f call q) (g call l))
    (calls : List (ι × χ)) {s : ι → Option σ} {t : ι → Option τ} (h : ∀ i, Option.Rel R (s i) (t i)) :
    Option.Rel (Agree fun u v => ∀ i, Option.Rel R (u i) (v i)) (runCalls f s calls) (runCalls g t calls) := by
  induction calls generalizing s t with
  | nil => exact .some ⟨rfl, h⟩
  | cons c calls ih =>
      obtain ⟨i, call⟩ := c
      refine rel_bind (hanswer call (s i) (t i) (h i)) ?_
      rintro ⟨a, q⟩ ⟨_, l⟩ ⟨rfl, hql⟩
      refine rel_map (ih fun j => rel_update h hql i j) ?_
      rintro ⟨answers, u⟩ ⟨_, v⟩ ⟨rfl, huv⟩
      exact ⟨rfl, huv⟩

end

end Puppetmaster.Library
