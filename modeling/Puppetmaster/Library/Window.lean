import Mathlib.Data.List.OfFn
import Mathlib.Data.List.TakeDrop

namespace Puppetmaster.Library

-- The words of a memory that a pipelined reader has requested but not yet
-- consumed: those from `lo` on and below `hi`, in address order.
def window {n : ℕ} {α : Type*} (mem : Fin n → α) (lo hi : ℕ) : List α :=
  ((List.ofFn mem).take hi).drop lo

variable {n : ℕ} {α : Type*} {mem : Fin n → α} {lo hi : ℕ}

@[simp] theorem window_self : window mem lo lo = [] := by
  simp [window]

theorem length_window : (window mem lo hi).length = min hi n - lo := by
  simp [window]

-- A further request enters at the back.
theorem window_succ_right (i : Fin n) (h : lo ≤ i) :
    window mem lo (i + 1) = window mem lo i ++ [mem i] := by
  have hi : i.val < (List.ofFn mem).length := by simp
  rw [window, List.take_succ_eq_append_getElem hi, List.drop_append_of_le_length (by simp; omega),
    List.getElem_ofFn]
  rfl

-- A consumed response leaves at the front.
theorem window_succ_left (i : Fin n) (h : i < hi) :
    window mem i hi = mem i :: window mem (i + 1) hi := by
  have hi : i.val < ((List.ofFn mem).take hi).length := by simp; omega
  rw [window, List.drop_eq_getElem_cons hi, List.getElem_take, List.getElem_ofFn]
  rfl

-- The oldest response is the word at the low end, which was requested.
theorem eq_of_window_cons {data : α} {rest : List α} (i : ℕ) (h : data :: rest = window mem i hi) :
    ∃ hn : i < n, i < hi ∧ data = mem ⟨i, hn⟩ ∧ rest = window mem (i + 1) hi := by
  have hlen := congrArg List.length h
  rw [length_window, List.length_cons] at hlen
  have hn : i < n := by omega
  have hlt : i < hi := by omega
  rw [window_succ_left ⟨i, hn⟩ hlt, List.cons.injEq] at h
  exact ⟨hn, hlt, h⟩

end Puppetmaster.Library
