import Mathlib.Data.List.Forall2
import Mathlib.Tactic.Common

namespace Puppetmaster.Library

-- Programs that fail, written in `do` notation over `Except`.

section

variable {ε α β : Type}

@[simp] theorem ok_bind (a : α) (f : α → Except ε β) : (Except.ok a >>= f) = f a := rfl

theorem bind_eq_ok {x : Except ε α} {f : α → Except ε β} {b : β} :
    (x >>= f) = .ok b ↔ ∃ a, x = .ok a ∧ f a = .ok b := by
  cases x with
  | error e => simp [bind, Except.bind]
  | ok a => simp

theorem map_eq_ok {x : Except ε α} {b : β} {p : α × β} (h : x.map (·, b) = .ok p) :
    x = .ok p.1 ∧ p.2 = b := by
  cases x with
  | error e => cases h
  | ok a =>
      cases h
      exact ⟨rfl, rfl⟩

end

-- A program that succeeds for each of the values does so for all of them in turn.
theorem mapM_map_ok {ε ι α β : Type} {g : α → Except ε β} {h : ι → α} {f : ι → β} {is : List ι}
    (hg : ∀ i ∈ is, g (h i) = .ok (f i)) : (is.map h).mapM g = .ok (is.map f) := by
  induction is with
  | nil => rfl
  | cons i is ih =>
      obtain ⟨hi, his⟩ := List.forall_mem_cons.mp hg
      rw [List.map_cons, List.mapM_cons, hi, ok_bind, ih his]
      rfl

-- A program that either fails or computes a function does so for all values in turn.
theorem mapM_eq_ok {ε α β : Type} {f : α → Except ε β} {P : α → Prop} {g : α → β}
    (hf : ∀ a b, f a = .ok b ↔ P a ∧ g a = b) {as : List α} {bs : List β} :
    as.mapM f = .ok bs ↔ (∀ a ∈ as, P a) ∧ as.map g = bs := by
  induction as generalizing bs with
  | nil => simp [pure, Except.pure]
  | cons a as ih =>
      rw [List.mapM_cons, bind_eq_ok]
      simp only [hf, bind_eq_ok, ih, List.forall_mem_cons, List.map_cons]
      constructor
      · rintro ⟨b, ⟨ha, rfl⟩, bs', ⟨has, rfl⟩, hbs⟩
        exact ⟨⟨ha, has⟩, Except.ok.inj hbs⟩
      · rintro ⟨⟨ha, has⟩, rfl⟩
        exact ⟨_, ⟨ha, rfl⟩, _, ⟨has, rfl⟩, rfl⟩

section

variable {ε ι α β γ : Type} {P : ι → α → Prop} {Q : ι → β → Prop} {R : ι → γ → Prop} {is : List ι}

theorem mapM_ok {f : α → Except ε γ} {as : List α} (has : List.Forall₂ P is as)
    (hf : ∀ i ∈ is, ∀ a, P i a → ∃ c, f a = .ok c ∧ R i c) :
    ∃ cs, as.mapM f = .ok cs ∧ List.Forall₂ R is cs := by
  induction has with
  | nil => exact ⟨[], rfl, List.Forall₂.nil⟩
  | cons ha _ ih =>
      obtain ⟨hi, his⟩ := List.forall_mem_cons.mp hf
      obtain ⟨c, hc, hR⟩ := hi _ ha
      obtain ⟨cs, hcs, hRs⟩ := ih his
      refine ⟨c :: cs, ?_, hRs.cons hR⟩
      rw [List.mapM_cons, hc, ok_bind, hcs]
      rfl

theorem mapM_zip_ok {f : α × β → Except ε γ} {as : List α} {bs : List β} (has : List.Forall₂ P is as)
    (hbs : List.Forall₂ Q is bs) (hf : ∀ i a b, P i a → Q i b → ∃ c, f (a, b) = .ok c ∧ R i c) :
    ∃ cs, (as.zip bs).mapM f = .ok cs ∧ List.Forall₂ R is cs := by
  induction has generalizing bs with
  | nil =>
      cases hbs
      exact ⟨[], rfl, List.Forall₂.nil⟩
  | cons ha _ ih =>
      cases hbs with
      | cons hb hbs =>
          obtain ⟨c, hc, hR⟩ := hf _ _ _ ha hb
          obtain ⟨cs, hcs, hRs⟩ := ih hbs
          refine ⟨c :: cs, ?_, hRs.cons hR⟩
          rw [List.zip_cons_cons, List.mapM_cons, hc, ok_bind, hcs]
          rfl

end

end Puppetmaster.Library
