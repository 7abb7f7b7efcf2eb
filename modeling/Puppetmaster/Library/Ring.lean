import Mathlib.Data.List.Range
import Mathlib.Data.Nat.Bitwise
import Mathlib.Tactic.SplitIfs
import Mathlib.Logic.Function.Basic

namespace Puppetmaster.Library

-- A ring buffer over a power of two of slots. The tail is the next slot to be
-- written and never catches up with the head, so one slot always stays free.
structure Ring (α : Type*) (capacity : ℕ) where
  head : ℕ
  tail : ℕ
  buffer : ℕ → α
  pow : ∃ k, capacity = 2 ^ k
  head_lt : head < capacity
  tail_lt : tail < capacity

namespace Ring

variable {α : Type*} {capacity : ℕ}

def init (memory : ℕ → α) (hpow : ∃ k, capacity = 2 ^ k) : Ring α capacity where
  head := 0
  tail := 0
  buffer := memory
  pow := hpow
  head_lt := by obtain ⟨k, rfl⟩ := hpow; exact Nat.two_pow_pos k
  tail_lt := by obtain ⟨k, rfl⟩ := hpow; exact Nat.two_pow_pos k

def mask (_ : Ring α capacity) : ℕ := capacity - 1

def next (q : Ring α capacity) (i : ℕ) : ℕ := (i + 1) &&& q.mask

theorem next_eq_mod (q : Ring α capacity) (i : ℕ) : q.next i = (i + 1) % capacity := by
  obtain ⟨k, hk⟩ := q.pow
  simp only [next, mask, hk, Nat.and_two_pow_sub_one_eq_mod]

theorem capacity_pos (q : Ring α capacity) : 0 < capacity := Nat.zero_lt_of_lt q.head_lt

theorem next_lt (q : Ring α capacity) (i : ℕ) : q.next i < capacity := by
  rw [next_eq_mod]
  exact Nat.mod_lt _ q.capacity_pos

def full (q : Ring α capacity) : Bool := q.next q.tail == q.head

def isEmpty (q : Ring α capacity) : Bool := q.head == q.tail

def enq (q : Ring α capacity) (item : α) : Option (Ring α capacity) :=
  if q.next q.tail = q.head then none
  else some { q with
    buffer := Function.update q.buffer q.tail item
    tail := q.next q.tail
    tail_lt := q.next_lt q.tail }

def peek (q : Ring α capacity) : Option α :=
  if q.head = q.tail then none else some (q.buffer q.head)

def deq (q : Ring α capacity) : Option (α × Ring α capacity) :=
  if q.head = q.tail then none
  else some (q.buffer q.head, { q with
    head := q.next q.head
    head_lt := q.next_lt q.head })

-- The accesses that an operation is made of: a slot, and the index of one end.
def write (q : Ring α capacity) (i : ℕ) (item : α) : Ring α capacity :=
  { q with buffer := Function.update q.buffer i item }

def setTail (q : Ring α capacity) (i : ℕ) : Ring α capacity :=
  { q with tail := q.next i, tail_lt := q.next_lt i }

def setHead (q : Ring α capacity) (i : ℕ) : Ring α capacity :=
  { q with head := q.next i, head_lt := q.next_lt i }

-- Walk from slot `j` to the tail and stop at the first element that satisfies `test`.
def scan (q : Ring α capacity) (test : α → Bool) : ℕ → ℕ → Option Bool
  | 0, _ => none
  | fuel + 1, j =>
      if j = q.tail then some false
      else if test (q.buffer j) then some true
      else q.scan test fuel (q.next j)

def length (q : Ring α capacity) : ℕ := (q.tail + capacity - q.head) % capacity

-- The slot of the element at distance `i` from the head.
def slot (q : Ring α capacity) (i : ℕ) : ℕ := (q.head + i) % capacity

def toList (q : Ring α capacity) : List α := (List.range q.length).map fun i => q.buffer (q.slot i)

-- Both operands below the capacity, so the sum wraps at most once.
theorem mod_wrap {a c : ℕ} (h : a < 2 * c) : a % c = if a < c then a else a - c := by
  split_ifs with hlt
  · exact Nat.mod_eq_of_lt hlt
  · rw [Nat.mod_eq_sub_mod (by omega), Nat.mod_eq_of_lt (by omega)]

theorem length_eq (q : Ring α capacity) :
    q.length = if q.head ≤ q.tail then q.tail - q.head else q.tail + capacity - q.head := by
  have hh := q.head_lt
  have ht := q.tail_lt
  rw [length, mod_wrap (by omega)]
  split_ifs <;> omega

theorem slot_lt (q : Ring α capacity) (i : ℕ) : q.slot i < capacity := Nat.mod_lt _ q.capacity_pos

theorem slot_eq (q : Ring α capacity) {i : ℕ} (hi : i < capacity) :
    q.slot i = if q.head + i < capacity then q.head + i else q.head + i - capacity := by
  have hh := q.head_lt
  exact mod_wrap (by omega)

theorem next_eq (q : Ring α capacity) {i : ℕ} (hi : i < capacity) :
    q.next i = if i + 1 < capacity then i + 1 else 0 := by
  rw [next_eq_mod, mod_wrap (by omega)]
  split_ifs <;> omega

theorem next_inj (q : Ring α capacity) {i j : ℕ} (hi : i < capacity) (hj : j < capacity)
    (h : q.next i = q.next j) : i = j := by
  rw [q.next_eq hi, q.next_eq hj] at h
  split_ifs at h <;> omega

@[simp] theorem length_toList (q : Ring α capacity) : q.toList.length = q.length := by
  simp [toList]

-- Only the two indices and the slots between them matter.
theorem toList_congr {q q' : Ring α capacity} (hhead : q.head = q'.head) (htail : q.tail = q'.tail)
    (hbuffer : ∀ i < q'.length, q.buffer (q'.slot i) = q'.buffer (q'.slot i)) :
    q.toList = q'.toList := by
  have hlen : q.length = q'.length := by rw [length, length, hhead, htail]
  have hslot : ∀ i, q.slot i = q'.slot i := fun i => by rw [slot, slot, hhead]
  rw [toList, toList, hlen]
  refine List.map_congr_left fun i hi => ?_
  rw [hslot]
  exact hbuffer i (List.mem_range.mp hi)

theorem length_lt (q : Ring α capacity) : q.length < capacity := Nat.mod_lt _ q.capacity_pos

theorem full_iff (q : Ring α capacity) : q.full = true ↔ q.toList.length + 1 = capacity := by
  have hh := q.head_lt
  have ht := q.tail_lt
  rw [full, beq_iff_eq, length_toList, length_eq, q.next_eq ht]
  split_ifs <;> omega

theorem isEmpty_iff (q : Ring α capacity) : q.isEmpty = true ↔ q.toList = [] := by
  have hh := q.head_lt
  have ht := q.tail_lt
  rw [isEmpty, beq_iff_eq, ← List.length_eq_zero_iff, length_toList, length_eq]
  split_ifs <;> omega

@[simp] theorem toList_init (memory : ℕ → α) (hpow : ∃ k, capacity = 2 ^ k) :
    (init memory hpow).toList = [] := by
  rw [← isEmpty_iff]
  rfl

theorem slot_length (q : Ring α capacity) : q.slot q.length = q.tail := by
  have hh := q.head_lt
  have ht := q.tail_lt
  rw [q.slot_eq q.length_lt, length_eq]
  split_ifs <;> omega

theorem slot_succ (q : Ring α capacity) {i : ℕ} (hi : i + 1 < capacity) :
    q.next (q.slot i) = q.slot (i + 1) := by
  have hh := q.head_lt
  rw [q.next_eq (q.slot_lt i), q.slot_eq hi, q.slot_eq (by omega)]
  split_ifs <;> omega

theorem slot_ne_tail (q : Ring α capacity) {i : ℕ} (hi : i < q.length) : q.slot i ≠ q.tail := by
  have hh := q.head_lt
  have ht := q.tail_lt
  have hl := q.length_lt
  rw [q.slot_eq (by omega)]
  rw [length_eq] at hi hl
  split_ifs at * <;> omega

@[simp] theorem buffer_write_self (q : Ring α capacity) (i : ℕ) (item : α) :
    (q.write i item).buffer i = item :=
  Function.update_self ..

theorem buffer_write_of_ne (q : Ring α capacity) {i j : ℕ} (item : α) (h : j ≠ i) :
    (q.write i item).buffer j = q.buffer j :=
  Function.update_of_ne h ..

-- A write to a slot that holds no element is not seen.
theorem toList_write (q : Ring α capacity) (item : α) {i : ℕ} (hfree : ∀ j < q.length, q.slot j ≠ i) :
    (q.write i item).toList = q.toList :=
  toList_congr rfl rfl fun j hj => q.buffer_write_of_ne item (hfree j hj)

theorem toList_write_tail (q : Ring α capacity) (item : α) :
    (q.write q.tail item).toList = q.toList :=
  q.toList_write item fun _ hj => q.slot_ne_tail hj

-- The slot at the tail becomes the last element when the tail moves past it.
theorem toList_setTail (q : Ring α capacity) (h : q.next q.tail ≠ q.head) :
    (q.setTail q.tail).toList = q.toList ++ [q.buffer q.tail] := by
  have hlen : (q.setTail q.tail).length = q.length + 1 := by
    have hh := q.head_lt
    have ht := q.tail_lt
    rw [q.next_eq ht] at h
    simp only [length_eq, setTail, q.next_eq ht]
    split_ifs at * <;> omega
  have hlast : q.buffer (q.slot q.length) = q.buffer q.tail := congrArg q.buffer q.slot_length
  simp only [toList, hlen, List.range_succ, List.map_append, List.map_cons, List.map_nil]
  exact congrArg (_ ++ ·) (congrArg (fun x => [x]) hlast)

theorem slot_ne_head (q : Ring α capacity) {i : ℕ} (hpos : 0 < i) (hi : i < capacity) :
    q.slot i ≠ q.head := by
  have hh := q.head_lt
  rw [q.slot_eq hi]
  split_ifs <;> omega

-- An accepted item goes behind the others; the queue refuses it exactly when it is full.
theorem toList_enq {q q' : Ring α capacity} {item : α} (h : q.enq item = some q') :
    q'.toList = q.toList ++ [item] := by
  unfold enq at h
  split at h
  · simp at h
  · rename_i hroom
    obtain rfl := Option.some.inj h
    calc ((q.write q.tail item).setTail q.tail).toList
        = (q.write q.tail item).toList ++ [(q.write q.tail item).buffer q.tail] :=
          toList_setTail (q.write q.tail item) hroom
      _ = q.toList ++ [item] := by rw [toList_write_tail, buffer_write_self]

theorem enq_eq_none {q : Ring α capacity} {item : α} : q.enq item = none ↔ q.full = true := by
  rw [full, beq_iff_eq]
  unfold enq
  split_ifs with h <;> simp [h]

theorem slot_setHead (q : Ring α capacity) {i : ℕ} (hi : i + 1 < capacity) :
    (q.setHead q.head).slot i = q.slot (i + 1) := by
  have hh := q.head_lt
  rw [slot_eq q hi, slot_eq _ (by omega)]
  simp only [setHead, q.next_eq hh]
  split_ifs <;> omega

theorem length_setHead (q : Ring α capacity) (h : q.head ≠ q.tail) :
    q.length = (q.setHead q.head).length + 1 := by
  have hh := q.head_lt
  have ht := q.tail_lt
  simp only [length_eq, setHead, q.next_eq hh]
  split_ifs <;> omega

-- The slot at the head is the first element.
theorem toList_cons (q : Ring α capacity) (h : q.head ≠ q.tail) :
    q.toList = q.buffer q.head :: (q.setHead q.head).toList := by
  have hlen := q.length_setHead h
  have hl := q.length_lt
  have hhead : q.slot 0 = q.head := Nat.mod_eq_of_lt q.head_lt
  simp only [toList, hlen, List.range_succ_eq_map, List.map_cons, List.map_map, hhead]
  refine congrArg (_ :: ·) (List.map_congr_left fun i hi => ?_)
  have hi := List.mem_range.mp hi
  rw [q.slot_setHead (by omega)]
  rfl

theorem toList_deq {q q' : Ring α capacity} {item : α} (h : q.deq = some (item, q')) :
    q.toList = item :: q'.toList := by
  unfold deq at h
  split at h
  · simp at h
  · rename_i hne
    simp only [Option.some.injEq, Prod.mk.injEq] at h
    obtain ⟨rfl, rfl⟩ := h
    exact q.toList_cons hne

theorem deq_eq_none {q : Ring α capacity} : q.deq = none ↔ q.toList = [] := by
  rw [← isEmpty_iff, isEmpty, beq_iff_eq]
  unfold deq
  split_ifs with h <;> simp [h]

theorem peek_eq (q : Ring α capacity) : q.peek = q.toList.head? := by
  unfold peek
  split_ifs with h
  · rw [(q.isEmpty_iff).mp (by simp [isEmpty, h])]
    rfl
  · rw [q.toList_cons h]
    rfl

-- With one unit of fuel for every element left and one for the tail, the walk
-- from distance `i` ends and has tested exactly the elements from there on.
theorem scan_slot (q : Ring α capacity) (test : α → Bool) (fuel i : ℕ) (hi : i ≤ q.length)
    (hfuel : q.length - i < fuel) :
    q.scan test fuel (q.slot i) = some ((q.toList.drop i).any test) := by
  induction fuel generalizing i with
  | zero => omega
  | succ fuel ih =>
      have hl := q.length_lt
      rw [scan]
      by_cases he : i = q.length
      · subst he
        rw [if_pos q.slot_length, List.drop_of_length_le (by simp), List.any_nil]
      · have hlt : i < q.toList.length := by rw [length_toList]; omega
        have hget : q.toList[i] = q.buffer (q.slot i) := by simp [toList]
        rw [if_neg (q.slot_ne_tail (by omega)), List.drop_eq_getElem_cons hlt, List.any_cons, hget]
        cases hb : test (q.buffer (q.slot i)) with
        | true => simp
        | false =>
            simp only [Bool.false_eq_true, if_false, Bool.false_or]
            rw [q.slot_succ (by omega)]
            exact ih (i + 1) (by omega) (by omega)

theorem scan_head (q : Ring α capacity) (test : α → Bool) :
    q.scan test capacity q.head = some (q.toList.any test) := by
  have h := q.scan_slot test capacity 0 (Nat.zero_le _) (by have := q.length_lt; omega)
  have hs : q.slot 0 = q.head := Nat.mod_eq_of_lt q.head_lt
  simpa only [hs, List.drop_zero] using h

end Ring

end Puppetmaster.Library
