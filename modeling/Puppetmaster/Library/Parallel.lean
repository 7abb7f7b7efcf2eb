import Puppetmaster.Library.Transition
import Mathlib.Algebra.BigOperators.Group.Finset.Basic
import Mathlib.Algebra.Order.BigOperators.Group.Finset

namespace Puppetmaster.Library.Parallel

open Transition

-- Workers that share a memory, each with a program counter of its own. A step of one of them
-- may depend on a draw. An abort of one of them is the end for all.
structure State (κ μ π ε : Type*) where
  memory : μ
  workers : κ → π
  aborted : Option ε

variable {κ μ π δ ε : Type*} [DecidableEq κ]

-- What `work` does when it is the turn of a worker; `none` where the worker has finished.
variable (work : κ → δ → μ → π → Option (Except ε (μ × π)))

def step (s : State κ μ π ε) (label : κ × δ) : Option (State κ μ π ε) :=
  if s.aborted.isSome then none
  else (work label.1 label.2 s.memory (s.workers label.1)).map fun
    | .ok (memory, pc) =>
        { s with memory, workers := Function.update s.workers label.1 pc }
    | .error e => { s with aborted := some e }

def Finished (s : State κ μ π ε) : Prop := ∀ t d, work t d s.memory (s.workers t) = none

variable {work}

theorem step_cases {s s' : State κ μ π ε} {t : κ} {d : δ} (h : step work s (t, d) = some s') :
    s.aborted = none ∧
      ((∃ memory pc, work t d s.memory (s.workers t) = some (.ok (memory, pc)) ∧
          s' = ⟨memory, Function.update s.workers t pc, none⟩) ∨
        ∃ e, work t d s.memory (s.workers t) = some (.error e) ∧
          s' = { s with aborted := some e }) := by
  unfold step at h
  split_ifs at h with haborted
  have hnone : s.aborted = none := by simpa using haborted
  obtain ⟨result, hwork, hs'⟩ := Option.map_eq_some_iff.mp h
  refine ⟨hnone, ?_⟩
  cases result with
  | ok result => exact Or.inl ⟨result.1, result.2, hwork, by rw [← hs', hnone]⟩
  | error e => exact Or.inr ⟨e, hwork, hs'.symm⟩

theorem step_of_work {s : State κ μ π ε} {t : κ} {d : δ} {memory : μ} {pc : π}
    (hnone : s.aborted = none) (hwork : work t d s.memory (s.workers t) = some (.ok (memory, pc))) :
    step work s (t, d) = some ⟨memory, Function.update s.workers t pc, none⟩ := by
  simp [step, hnone, hwork]

theorem step_of_abort {s : State κ μ π ε} {t : κ} {d : δ} {e : ε} (hnone : s.aborted = none)
    (hwork : work t d s.memory (s.workers t) = some (.error e)) :
    step work s (t, d) = some { s with aborted := some e } := by
  simp [step, hnone, hwork]

-- What each worker knows of the memory at its program counter, if no step of another worker
-- makes it wrong.
structure Stable (work : κ → δ → μ → π → Option (Except ε (μ × π))) (knows : κ → μ → π → Prop) :
    Prop where
  keep : ∀ {t d m p m' p'}, work t d m p = some (.ok (m', p')) → knows t m p → knows t m' p'
  others : ∀ {t u d m p m' p' q}, u ≠ t → work t d m p = some (.ok (m', p')) → knows t m p →
    knows u m q → knows u m' q

section

variable {knows : κ → μ → π → Prop} {start s : State κ μ π ε} {labels : List (κ × δ)}

theorem Stable.run (hstable : Stable work knows)
    (hstart : ∀ t, knows t start.memory (start.workers t))
    (hrun : Run (Of (step work)) start labels s) : ∀ t, knows t s.memory (s.workers t) := by
  refine hrun.invariant (fun s => ∀ t, knows t s.memory (s.workers t)) hstart ?_
  rintro s ⟨t, d⟩ s' hknows hstep
  obtain ⟨-, ⟨memory, pc, hwork, rfl⟩ | ⟨e, -, rfl⟩⟩ := step_cases hstep
  · intro u
    by_cases hu : u = t
    · subst hu
      simp only [Function.update_self]
      exact hstable.keep hwork (hknows u)
    · simp only [Function.update_of_ne hu]
      exact hstable.others hu hwork (hknows t) (hknows u)
  · exact hknows

-- Where no worker aborts at what it knows, none does in a run.
theorem Stable.not_aborted (hstable : Stable work knows)
    (hsafe : ∀ {t d m p e}, knows t m p → work t d m p ≠ some (.error e))
    (hstart : ∀ t, knows t start.memory (start.workers t)) (hnone : start.aborted = none)
    (hrun : Run (Of (step work)) start labels s) : s.aborted = none := by
  cases hrun with
  | nil => exact hnone
  | @snoc labels earlier _ label hearlier hlast =>
      obtain ⟨-, ⟨memory, pc, -, rfl⟩ | ⟨e, hwork, -⟩⟩ := step_cases hlast
      · rfl
      · exact absurd hwork (hsafe (hstable.run hstart hearlier label.1))

end

-- A number for each program counter that every step of a worker makes smaller.
def Variant (work : κ → δ → μ → π → Option (Except ε (μ × π))) (variant : κ → π → ℕ) : Prop :=
  ∀ t d m p m' p', work t d m p = some (.ok (m', p')) → variant t p' < variant t p

section

variable [Fintype κ] {variant : κ → π → ℕ} {start s s' : State κ μ π ε} {labels : List (κ × δ)}

-- The steps that are left, an abort being one.
def remaining (variant : κ → π → ℕ) (s : State κ μ π ε) : ℕ :=
  if s.aborted.isSome then 0 else (∑ t, variant t (s.workers t)) + 1

theorem remaining_lt (hvariant : Variant work variant) {label : κ × δ}
    (h : step work s label = some s') : remaining variant s' < remaining variant s := by
  obtain ⟨hnone, ⟨memory, pc, hwork, rfl⟩ | ⟨e, -, rfl⟩⟩ := step_cases h
  · have hlt : ∑ t, variant t (Function.update s.workers label.1 pc t) <
        ∑ t, variant t (s.workers t) := by
      refine Finset.sum_lt_sum (fun t _ => ?_) ⟨label.1, Finset.mem_univ _, ?_⟩
      · by_cases ht : t = label.1
        · subst ht
          rw [Function.update_self]
          exact (hvariant _ _ _ _ _ _ hwork).le
        · rw [Function.update_of_ne ht]
      · rw [Function.update_self]
        exact hvariant _ _ _ _ _ _ hwork
    simpa [remaining, hnone] using hlt
  · simp [remaining, hnone]

-- Every run comes to an end.
theorem length_le_remaining (hvariant : Variant work variant)
    (hrun : Run (Of (step work)) start labels s) : labels.length ≤ remaining variant start := by
  have hsum : labels.length + remaining variant s ≤ remaining variant start := by
    refine hrun.history (fun labels s => labels.length + remaining variant s ≤ _) ?_ ?_
    · simp
    · intro labels s label s' hle hstep
      have hlt := remaining_lt hvariant hstep
      rw [List.length_append, List.length_singleton]
      omega
  omega

-- Every state can be run on until all workers have finished or one has aborted.
theorem exists_run_finished (hvariant : Variant work variant) (s : State κ μ π ε) :
    ∃ labels s', Run (Of (step work)) s labels s' ∧ (s'.aborted = none → Finished work s') := by
  induction hn : remaining variant s using Nat.strong_induction_on generalizing s with
  | _ n ih =>
      by_cases hdone : s.aborted = none → Finished work s
      · exact ⟨[], s, .nil, hdone⟩
      · simp only [Classical.not_imp, Finished, not_forall] at hdone
        obtain ⟨hnone, t, d, hwork⟩ := hdone
        obtain ⟨s₁, hstep⟩ : ∃ s₁, step work s (t, d) = some s₁ := by
          obtain ⟨result, hresult⟩ := Option.ne_none_iff_exists'.mp hwork
          simp [step, hnone, hresult]
        obtain ⟨labels, s', hrun, hs'⟩ := ih _ (hn ▸ remaining_lt hvariant hstep) s₁ rfl
        exact ⟨(t, d) :: labels, s', Run.cons hstep hrun, hs'⟩

end

end Puppetmaster.Library.Parallel
