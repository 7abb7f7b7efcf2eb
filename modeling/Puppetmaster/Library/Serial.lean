import Mathlib.Data.List.Pairwise
import Mathlib.Data.List.Range
import Mathlib.Data.Set.Basic
import Mathlib.Logic.Function.Basic

namespace Puppetmaster.Library

section Commuting

variable {α σ : Type*} {act : σ → α → σ}

-- Two actions whose order does not matter.
def Independent (act : σ → α → σ) (a b : α) : Prop := ∀ s, act (act s a) b = act (act s b) a

theorem Independent.symm {a b : α} (h : Independent act a b) : Independent act b a :=
  fun s => (h s).symm

-- An action moves behind actions that it is independent of.
theorem foldl_of_independent {a : α} {l : List α} (h : ∀ b ∈ l, Independent act a b) (s : σ) :
    l.foldl act (act s a) = act (l.foldl act s) a := by
  induction l generalizing s with
  | nil => rfl
  | cons b l ih =>
      rw [List.foldl_cons, List.foldl_cons, h b List.mem_cons_self,
        ih fun c hc => h c (List.mem_cons_of_mem b hc)]

-- The actions of the owners below `n`, one owner after the other, each in its own order.
def inTurn (owner : α → ℕ) (n : ℕ) (l : List α) : List α :=
  (List.range n).flatMap fun k => l.filter fun a => owner a = k

variable {owner : α → ℕ} {n : ℕ} {l : List α}

theorem mem_inTurn {a : α} : a ∈ inTurn owner n l ↔ a ∈ l ∧ owner a < n := by
  simp only [inTurn, List.mem_flatMap, List.mem_range, List.mem_filter, decide_eq_true_eq]
  constructor
  · rintro ⟨k, hk, ha, rfl⟩
    exact ⟨ha, hk⟩
  · rintro ⟨ha, hlt⟩
    exact ⟨owner a, hlt, ha, rfl⟩

-- The new action opens the turn of its owner; the turns before it stay as they are.
theorem inTurn_cons {a : α} (h : owner a < n) :
    ∃ front back, inTurn owner n l = front ++ back ∧ inTurn owner n (a :: l) = front ++ a :: back ∧
      ∀ b ∈ front, b ∈ l ∧ owner b < owner a := by
  obtain ⟨rest, rfl⟩ : ∃ rest, n = owner a + (1 + rest) := ⟨n - owner a - 1, by omega⟩
  have hsplit : ∀ l : List α, inTurn owner (owner a + (1 + rest)) l = inTurn owner (owner a) l ++
      (l.filter (fun b => owner b = owner a) ++
        (List.range' (owner a + 1) rest).flatMap fun k => l.filter fun b => owner b = k) := by
    intro l
    rw [inTurn, List.range_eq_range', ← List.range'_append_1, ← List.range'_append_1,
      List.flatMap_append, List.flatMap_append, inTurn, List.range_eq_range']
    simp
  have hskip : ∀ ks : List ℕ, owner a ∉ ks →
      (ks.flatMap fun k => (a :: l).filter fun b => owner b = k) =
        ks.flatMap fun k => l.filter fun b => owner b = k := by
    intro ks hks
    refine List.flatMap_congr fun k hk => ?_
    have hne : ¬ owner a = k := fun heq => hks (heq ▸ hk)
    rw [List.filter_cons_of_neg (by simpa using hne)]
  refine ⟨inTurn owner (owner a) l, _, hsplit l, ?_, fun b hb => mem_inTurn.mp hb⟩
  rw [hsplit, inTurn, hskip _ (by simp), hskip _ (by simp), List.filter_cons_of_pos (by simp)]
  rfl

-- Actions that overtook only actions of later owners they are independent of have the effect
-- of the same actions one owner after the other.
theorem foldl_inTurn (horder : l.Pairwise fun a b => owner b < owner a → Independent act a b)
    (hlt : ∀ a ∈ l, owner a < n) (s : σ) : l.foldl act s = (inTurn owner n l).foldl act s := by
  induction l generalizing s with
  | nil => rw [inTurn, List.flatMap_eq_nil_iff.mpr fun _ _ => List.filter_nil]
  | cons a l ih =>
      obtain ⟨hfirst, hrest⟩ := List.pairwise_cons.mp horder
      obtain ⟨front, back, hl, hal, hfront⟩ :=
        inTurn_cons (l := l) (hlt a List.mem_cons_self)
      have hpast : ∀ b ∈ front, Independent act a b := fun b hb =>
        hfirst b (hfront b hb).1 (hfront b hb).2
      rw [List.foldl_cons, ih hrest fun b hb => hlt b (List.mem_cons_of_mem a hb), hl, hal,
        List.foldl_append, List.foldl_append, List.foldl_cons, foldl_of_independent hpast]

end Commuting

section Windows

variable {ε α σ : Type*}

def actionsOf (steps : List (ε ⊕ α)) : List α := steps.filterMap Sum.getRight?

@[simp] theorem actionsOf_entry (steps : List (ε ⊕ α)) (e : ε) :
    actionsOf (steps ++ [.inl e]) = actionsOf steps := by
  rw [actionsOf, List.filterMap_append]
  exact List.append_nil _

@[simp] theorem actionsOf_act (steps : List (ε ⊕ α)) (a : α) :
    actionsOf (steps ++ [.inr a]) = actionsOf steps ++ [a] := List.filterMap_append

-- A log together with actions taken between its entries: every owner acts after the entry
-- that opens its window and before the one that closes it.
inductive InWindows (owner : α → ℕ) (opened closed : List ε → ℕ → Prop) :
    List ε → List (ε ⊕ α) → Prop
  | nil : InWindows owner opened closed [] []
  | entry {log : List ε} {steps : List (ε ⊕ α)} (h : InWindows owner opened closed log steps) (e : ε) :
      InWindows owner opened closed (log ++ [e]) (steps ++ [.inl e])
  | act {log : List ε} {steps : List (ε ⊕ α)} (h : InWindows owner opened closed log steps) {a : α}
      (hopened : opened log (owner a)) (hopen : ¬ closed log (owner a)) :
      InWindows owner opened closed log (steps ++ [.inr a])

variable {owner : α → ℕ} {opened closed : List ε → ℕ → Prop} {log : List ε}
  {steps : List (ε ⊕ α)} {act : σ → α → σ}

theorem InWindows.opened_of_mem (h : InWindows owner opened closed log steps)
    (hmono : ∀ log e i, opened log i → opened (log ++ [e]) i) :
    ∀ a ∈ actionsOf steps, opened log (owner a) := by
  induction h with
  | nil => exact fun a ha => absurd ha List.not_mem_nil
  | entry _ e ih =>
      intro a ha
      rw [actionsOf_entry] at ha
      exact hmono _ e _ (ih a ha)
  | act _ hopened _ ih =>
      intro b hb
      rw [actionsOf_act, List.mem_append, List.mem_singleton] at hb
      rcases hb with hb | rfl
      · exact ih b hb
      · exact hopened

theorem InWindows.entries (h : InWindows owner opened closed log steps) (es : List ε) :
    InWindows owner opened closed (log ++ es) (steps ++ es.map .inl) := by
  induction es generalizing log steps with
  | nil => simpa using h
  | cons e es ih => simpa using ih (h.entry e)

-- Where a window opens only after the windows of the earlier owners it depends on are closed,
-- no action overtakes one that it depends on.
theorem InWindows.pairwise {dependent : ℕ → ℕ → Prop} (h : InWindows owner opened closed log steps)
    (hmono : ∀ log e i, opened log i → opened (log ++ [e]) i)
    (horder : ∀ front, front <+: log → ∀ i j, i < j → dependent i j → opened front j →
      closed front i) :
    (actionsOf steps).Pairwise fun a b => owner b < owner a → ¬ dependent (owner b) (owner a) := by
  induction h with
  | nil => exact List.Pairwise.nil
  | entry _ e ih =>
      rw [actionsOf_entry]
      exact ih fun front hfront => horder front (hfront.trans (List.prefix_append _ _))
  | act h _ hopen ih =>
      rw [actionsOf_act]
      refine List.pairwise_append.mpr ⟨ih horder, List.pairwise_singleton _ _, fun a ha b hb hlt hdep => ?_⟩
      obtain rfl := List.mem_singleton.mp hb
      exact hopen (horder _ List.prefix_rfl _ _ hlt hdep (h.opened_of_mem hmono a ha))

end Windows

section Store

variable {O V L : Type*}

-- A step of a transaction: it takes an object into its local state, or writes one from it.
inductive Access (O V L : Type*)
  | read (obj : O) (f : L → V → L)
  | write (obj : O) (f : L → V)

def Access.obj : Access O V L → O
  | .read obj _ | .write obj _ => obj

def Access.writes : Access O V L → Bool
  | .read _ _ => false
  | .write _ _ => true

-- An access by the owner of two sets of objects: those that it reads and those that it writes.
def Access.Within (reads writes : Set O) : Access O V L → Prop
  | .read obj _ => obj ∈ reads ∨ obj ∈ writes
  | .write obj _ => obj ∈ writes

section

variable {access : Access O V L} {reads writes : Set O}

theorem Access.Within.of_writes (h : access.Within reads writes) (hwrites : access.writes = true) :
    access.obj ∈ writes := by
  cases access with
  | read obj f => simp [Access.writes] at hwrites
  | write obj f => exact h

theorem Access.Within.named (h : access.Within reads writes) :
    access.obj ∈ reads ∨ access.obj ∈ writes := by
  cases access with
  | read obj f => exact h
  | write obj f => exact .inr h

end

-- The objects, and the local state of every transaction.
structure Store (O V L : Type*) where
  objects : O → V
  locals : ℕ → L

variable [DecidableEq O]

def Store.perform (s : Store O V L) (step : ℕ × Access O V L) : Store O V L :=
  match step.2 with
  | .read obj f =>
      { s with locals := Function.update s.locals step.1 (f (s.locals step.1) (s.objects obj)) }
  | .write obj f => { s with objects := Function.update s.objects obj (f (s.locals step.1)) }

-- Steps of different transactions, on different objects or both reading.
theorem independent_perform {a b : ℕ × Access O V L} (howner : a.1 ≠ b.1)
    (h : a.2.obj = b.2.obj → a.2.writes = false ∧ b.2.writes = false) :
    Independent Store.perform a b := by
  obtain ⟨i, a⟩ := a
  obtain ⟨j, b⟩ := b
  intro s
  cases a with
  | read x f =>
      cases b with
      | read y g =>
          simp only [Store.perform, Function.update_of_ne howner, Function.update_of_ne howner.symm]
          rw [Function.update_comm howner]
      | write y g =>
          have hne : x ≠ y := fun heq => by simpa [Access.writes] using h heq
          simp only [Store.perform, Function.update_of_ne hne, Function.update_of_ne howner.symm]
  | write x f =>
      cases b with
      | read y g =>
          have hne : x ≠ y := fun heq => by simpa [Access.writes] using h heq
          simp only [Store.perform, Function.update_of_ne hne.symm, Function.update_of_ne howner]
      | write y g =>
          have hne : x ≠ y := fun heq => by simpa [Access.writes] using h heq
          simp only [Store.perform]
          rw [Function.update_comm hne]

-- Steps of owners that share no object that one of them writes.
theorem independent_within {a b : ℕ × Access O V L} {reads writes reads' writes' : Set O}
    (ha : a.2.Within reads writes) (hb : b.2.Within reads' writes') (howner : a.1 ≠ b.1)
    (hwrites : ∀ obj ∈ writes, obj ∉ reads' ∧ obj ∉ writes') (hreads : ∀ obj ∈ reads, obj ∉ writes') :
    Independent Store.perform a b := by
  refine independent_perform howner fun hobj => ⟨?_, ?_⟩ <;> rw [← Bool.not_eq_true] <;> intro hwrite
  · have hwritten := hwrites _ (ha.of_writes hwrite)
    rcases hobj ▸ hb.named with hb | hb
    · exact hwritten.1 hb
    · exact hwritten.2 hb
  · have hwritten := hobj ▸ hb.of_writes hwrite
    rcases ha.named with ha | ha
    · exact hreads _ ha hwritten
    · exact (hwrites _ ha).2 hwritten

end Store

end Puppetmaster.Library
