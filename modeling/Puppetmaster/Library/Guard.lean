import Mathlib.Data.Option.Basic
import Mathlib.Tactic.SplitIfs

namespace Puppetmaster.Library

-- The guard of a rule written in `do` notation over `Option`.
def require (p : Prop) [Decidable p] : Option Unit := if p then some () else none

@[simp] theorem require_eq_some {p : Prop} [Decidable p] {u : Unit} : require p = some u ↔ p := by
  unfold require
  split_ifs with h <;> simp [h]

-- A step that returns a value, as a step labelled with the value returned.
def expect {β σ : Type} [DecidableEq β] (value : β) (result : Option (β × σ)) : Option σ :=
  result.bind fun r => if r.1 = value then some r.2 else none

theorem expect_eq_some {β σ : Type} [DecidableEq β] {value : β} {result : Option (β × σ)} {next : σ} :
    expect value result = some next ↔ result = some (value, next) := by
  unfold expect
  constructor
  · intro h
    obtain ⟨⟨v, s⟩, hr, hs⟩ := Option.bind_eq_some_iff.mp h
    split at hs
    · rename_i hv
      obtain rfl := Option.some.inj hs
      simpa [← show v = value from hv] using hr
    · simp at hs
  · rintro rfl
    simp

end Puppetmaster.Library
