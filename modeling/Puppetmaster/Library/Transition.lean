import Mathlib.Data.List.Basic
import Mathlib.Logic.Basic

namespace Puppetmaster.Library.Transition

variable {σ α : Type*}

-- A finite run of a labelled step relation; the labels stand in the order they were taken.
inductive Run (step : σ → α → σ → Prop) (start : σ) : List α → σ → Prop
  | nil : Run step start [] start
  | snoc {labels : List α} {state next : σ} {label : α}
      (earlier : Run step start labels state) (last : step state label next) :
      Run step start (labels ++ [label]) next

-- The relation of a partial step function.
def Of (step : σ → α → Option σ) (state : σ) (label : α) (next : σ) : Prop :=
  step state label = some next

-- The steps of a partial step function whose starting state and label meet a condition.
def Meeting (step : σ → α → Option σ) (ok : σ → α → Prop) (state : σ) (label : α) (next : σ) :
    Prop :=
  step state label = some next ∧ ok state label

-- Execute the labels one after the other; `none` when one of them is not enabled.
def exec (step : σ → α → Option σ) : σ → List α → Option σ
  | state, [] => some state
  | state, label :: rest => (step state label).bind fun next => exec step next rest

variable {step other : σ → α → σ → Prop} {start state : σ} {labels : List α}

theorem Run.mono (himp : ∀ s a t, step s a t → other s a t) (hrun : Run step start labels state) :
    Run other start labels state := by
  induction hrun with
  | nil => exact .nil
  | snoc _ hlast ih => exact .snoc ih (himp _ _ _ hlast)

-- A property of the state that the start has and every step keeps holds after every run.
theorem Run.invariant (inv : σ → Prop) (hstart : inv start)
    (hkeep : ∀ s a t, inv s → step s a t → inv t) (hrun : Run step start labels state) :
    inv state := by
  induction hrun with
  | nil => exact hstart
  | snoc _ hlast ih => exact hkeep _ _ _ ih hlast

-- The steps of a run all start in states with the invariant.
theorem Run.within (inv : σ → Prop) (hstart : inv start)
    (hkeep : ∀ s a t, inv s → step s a t → inv t) (hrun : Run step start labels state) :
    Run (fun s a t => inv s ∧ step s a t) start labels state := by
  induction hrun with
  | nil => exact .nil
  | snoc hrun hlast ih => exact .snoc ih ⟨hrun.invariant inv hstart hkeep, hlast⟩

-- The same for a property of the state and of the labels taken so far.
theorem Run.history (inv : List α → σ → Prop) (hstart : inv [] start)
    (hkeep : ∀ labels s a t, inv labels s → step s a t → inv (labels ++ [a]) t)
    (hrun : Run step start labels state) : inv labels state := by
  induction hrun with
  | nil => exact hstart
  | snoc _ hlast ih => exact hkeep _ _ _ _ ih hlast

-- Forward simulation: related states step to related states under the same label.
theorem Run.simulation {τ : Type*} {abstract : τ → α → τ → Prop} {related : σ → τ → Prop} {start' : τ}
    (hstart : related start start')
    (hstep : ∀ s a s' label, related s a → step s label s' →
      ∃ a', abstract a label a' ∧ related s' a')
    (hrun : Run step start labels state) :
    ∃ state', Run abstract start' labels state' ∧ related state state' := by
  induction hrun with
  | nil => exact ⟨start', .nil, hstart⟩
  | snoc _ hlast ih =>
      obtain ⟨a, hrun, hrel⟩ := ih
      obtain ⟨a', ha, hrel'⟩ := hstep _ _ _ _ hrel hlast
      exact ⟨a', .snoc hrun ha, hrel'⟩

theorem Run.append {middle : σ} {front back : List α} (hfront : Run step start front middle)
    (hback : Run step middle back state) : Run step start (front ++ back) state := by
  induction hback with
  | nil => simpa using hfront
  | snoc _ hlast ih => simpa only [List.append_assoc] using Run.snoc ih hlast

theorem Run.single {label : α} (h : step start label state) : Run step start [label] state := by
  simpa using Run.snoc Run.nil h

theorem Run.cons {middle : σ} {label : α} (h : step start label middle)
    (hrun : Run step middle labels state) : Run step start (label :: labels) state :=
  (Run.single h).append hrun

theorem run_of_exec {step : σ → α → Option σ} (h : exec step start labels = some state) :
    Run (Of step) start labels state := by
  induction labels generalizing start with
  | nil =>
      obtain rfl : start = state := by simpa [exec] using h
      exact .nil
  | cons label rest ih =>
      obtain ⟨next, hnext, hrest⟩ := Option.bind_eq_some_iff.mp h
      exact Run.cons hnext (ih hrest)

def Reaches (step : σ → α → σ → Prop) (start state : σ) : Prop := ∃ labels, Run step start labels state

theorem Reaches.refl (step : σ → α → σ → Prop) (start : σ) : Reaches step start start := ⟨[], .nil⟩

theorem Reaches.single {label : α} (h : step start label state) : Reaches step start state :=
  ⟨[label], Run.single h⟩

theorem Reaches.trans {middle : σ} (hfront : Reaches step start middle) (hback : Reaches step middle state) :
    Reaches step start state := by
  obtain ⟨front, hfront⟩ := hfront
  obtain ⟨back, hback⟩ := hback
  exact ⟨front ++ back, hfront.append hback⟩

theorem Reaches.invariant (inv : σ → Prop) (hreach : Reaches step start state) (hstart : inv start)
    (hkeep : ∀ s a t, inv s → step s a t → inv t) : inv state := by
  obtain ⟨_, hrun⟩ := hreach
  exact hrun.invariant inv hstart hkeep

-- Where every state that is not yet good leads on to one of smaller measure, a good one can be
-- reached.
theorem reaches_of_decreasing (inv good : σ → Prop) (measure : σ → ℕ)
    (hadvance : ∀ s, inv s → ¬good s → ∃ t, Reaches step s t ∧ inv t ∧ measure t < measure s)
    (hstart : inv start) : ∃ t, Reaches step start t ∧ inv t ∧ good t := by
  induction hn : measure start using Nat.strongRecOn generalizing start with
  | ind n ih =>
    by_cases hgood : good start
    · exact ⟨start, .refl step start, hstart, hgood⟩
    obtain ⟨t, hreach, ht, hless⟩ := hadvance start hstart hgood
    obtain ⟨u, hmore, hu, hend⟩ := ih (measure t) (hn ▸ hless) ht rfl
    exact ⟨u, hreach.trans hmore, hu, hend⟩

-- The executable form of a run whose steps meet a decidable condition.
def guarded (step : σ → α → Option σ) (ok : σ → α → Prop) [∀ s a, Decidable (ok s a)]
    (state : σ) (label : α) : Option σ :=
  if ok state label then step state label else none

theorem run_meeting_of_exec {step : σ → α → Option σ} {ok : σ → α → Prop}
    [∀ s a, Decidable (ok s a)] (h : exec (guarded step ok) start labels = some state) :
    Run (Meeting step ok) start labels state := by
  apply (run_of_exec h).mono
  intro s a t hstep
  unfold Of guarded at hstep
  split at hstep
  · exact ⟨hstep, ‹_›⟩
  · simp at hstep

-- Where every step adds at most one entry to a log, every prefix of the log is the log of a
-- state on the way.
theorem Run.reaches_prefix {ε : Type*} (log : σ → List ε) (hstart : log start = [])
    (hstep : ∀ s a t, step s a t → log t = log s ∨ ∃ e, log t = log s ++ [e])
    (hrun : Run step start labels state) {front : List ε} (hfront : front <+: log state) :
    ∃ earlier middle, earlier <+: labels ∧ Run step start earlier middle ∧ log middle = front := by
  induction hrun with
  | nil =>
      rw [hstart, List.prefix_nil] at hfront
      exact ⟨[], start, List.prefix_rfl, .nil, hstart.trans hfront.symm⟩
  | @snoc labels s t a hrun hlast ih =>
      by_cases hbefore : front <+: log s
      · obtain ⟨earlier, middle, hearlier, hmiddle⟩ := ih hbefore
        exact ⟨earlier, middle, hearlier.trans (List.prefix_append _ _), hmiddle⟩
      · refine ⟨labels ++ [a], t, List.prefix_rfl, .snoc hrun hlast, ?_⟩
        obtain heq | ⟨e, heq⟩ := hstep s a t hlast
        · exact absurd (heq ▸ hfront) hbefore
        · rw [heq] at hfront ⊢
          exact ((List.prefix_concat_iff.mp hfront).resolve_right hbefore).symm

-- What does not depend on the parts that a view leaves out.
theorem eq_of_view {β : Type*} {view : σ → σ} {s t : σ} (h : view t = view s) (f : σ → β)
    (hf : ∀ s, f (view s) = f s) : f t = f s := by
  rw [← hf t, h, hf s]

-- What an observer of some labels sees of a run.
def trace {β : Type*} (observe : α → Option β) (labels : List α) : List β :=
  labels.filterMap observe

theorem trace_snoc {β : Type*} (observe : α → Option β) (labels : List α) (label : α) :
    trace observe (labels ++ [label]) = trace observe labels ++ (observe label).toList := by
  rw [trace, List.filterMap_append]
  cases h : observe label <;> simp [trace, h]

theorem trace_snoc_some {β : Type*} (observe : α → Option β) (labels : List α) {label : α} {b : β}
    (h : observe label = some b) : trace observe (labels ++ [label]) = trace observe labels ++ [b] := by
  rw [trace_snoc, h, Option.toList_some]

theorem trace_snoc_none {β : Type*} (observe : α → Option β) (labels : List α) {label : α}
    (h : observe label = none) : trace observe (labels ++ [label]) = trace observe labels := by
  rw [trace_snoc, h, Option.toList_none, List.append_nil]

theorem trace_trace {β γ : Type*} (observe : α → Option β) (observe' : β → Option γ)
    (labels : List α) :
    trace observe' (trace observe labels) = trace (fun a => (observe a).bind observe') labels :=
  List.filterMap_filterMap

-- A component takes the steps that its labels name and rests otherwise.
theorem Run.project {τ β : Type*} {component : τ → β → τ → Prop} (view : σ → τ)
    (observe : α → Option β) (hrest : ∀ s a t, step s a t → observe a = none → view t = view s)
    (hstep : ∀ s a t b, step s a t → observe a = some b → component (view s) b (view t))
    (hrun : Run step start labels state) :
    Run component (view start) (trace observe labels) (view state) := by
  induction hrun with
  | nil => exact .nil
  | @snoc labels s t a _ hlast ih =>
      cases hobserve : observe a with
      | none =>
          rw [trace_snoc_none _ labels hobserve, hrest _ _ _ hlast hobserve]
          exact ih
      | some b =>
          rw [trace_snoc_some _ labels hobserve]
          exact .snoc ih (hstep _ _ _ _ hlast hobserve)

end Puppetmaster.Library.Transition
