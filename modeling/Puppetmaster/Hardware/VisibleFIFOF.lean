import Puppetmaster.Library.Fifo
import Puppetmaster.Library.Ring
import Puppetmaster.Library.Transition

namespace Puppetmaster.Hardware

open Library Library.Transition

-- VisibleFIFOF.bsv, module mkVisibleFIFOF with fifo_depth = 2^k - 1. The provisos hold
-- from k = 2 on.
structure VisibleFIFOF (α : Type*) (k : ℕ) where
  buffer : BitVec k → α
  head : BitVec k
  tail : BitVec k

namespace VisibleFIFOF

-- What the methods ask for in one clock cycle: the wires do_enq and do_deq, and the value
-- that `?` stands for in this cycle.
structure Cycle (α : Type*) where
  enq : Option α
  deq : Bool
  unspecified : α

variable {α : Type*} {k : ℕ}

def init (memory : BitVec k → α) : VisibleFIFOF α k := ⟨memory, 0, 0⟩

def computeCount (s : VisibleFIFOF α k) : BitVec k :=
  if s.head ≤ s.tail then s.tail - s.head else -(s.head - s.tail)

-- The two branches of canonicalize.
def removed (s : VisibleFIFOF α k) (unspecified : α) : VisibleFIFOF α k :=
  { s with buffer := Function.update s.buffer s.head unspecified, head := s.head + 1 }

def appended (s : VisibleFIFOF α k) (data : α) : VisibleFIFOF α k :=
  { s with buffer := Function.update s.buffer s.tail data, tail := s.tail + 1 }

def canonicalize (s : VisibleFIFOF α k) (c : Cycle α) : VisibleFIFOF α k :=
  let s := if c.deq then s.removed c.unspecified else s
  match c.enq with
  | none => s
  | some data => s.appended data

def notFull (s : VisibleFIFOF α k) : Bool := s.tail + 1 != s.head

def notEmpty (s : VisibleFIFOF α k) : Bool := s.head != s.tail

def first (s : VisibleFIFOF α k) : Option α :=
  if s.head ≠ s.tail then some (s.buffer s.head) else none

def count (s : VisibleFIFOF α k) : BitVec k := s.computeCount

def peek (s : VisibleFIFOF α k) (idx : BitVec k) : α := s.buffer (s.head + idx)

-- The guards of enq and deq look at the state before the cycle.
def step (s : VisibleFIFOF α k) (c : Cycle α) : Option (VisibleFIFOF α k) :=
  if (c.enq.isSome = true → s.notFull = true) ∧ (c.deq = true → s.notEmpty = true) then
    some (s.canonicalize c)
  else none

-- What the module is for: in one cycle the head leaves if deq is called, then the new
-- element enters if enq is called.
def nextItems (items : List α) (c : Cycle α) : List α :=
  (if c.deq then items.tail else items) ++ c.enq.toList

def Permits (depth : ℕ) (items : List α) (c : Cycle α) : Prop :=
  (c.enq.isSome = true → items.length < depth) ∧ (c.deq = true → items ≠ [])

instance (depth : ℕ) (items : List α) (c : Cycle α) : Decidable (Permits depth items c) :=
  inferInstanceAs (Decidable (_ ∧ _))

theorem length_nextItems_le {depth : ℕ} (q : Fifo α depth) {c : Cycle α}
    (h : Permits depth q.items c) : (nextItems q.items c).length ≤ depth := by
  have hb := q.bound
  have hhead : (if c.deq then q.items.tail else q.items).length ≤ q.items.length := by
    split_ifs <;> simp
  rw [nextItems, List.length_append]
  cases henq : c.enq with
  | none =>
      simp only [Option.toList_none, List.length_nil]
      omega
  | some data =>
      have hlt := h.1 (by rw [henq]; rfl)
      simp only [Option.toList_some, List.length_singleton]
      omega

def abstractStep {depth : ℕ} (q : Fifo α depth) (c : Cycle α) : Option (Fifo α depth) :=
  if h : Permits depth q.items c then some ⟨nextItems q.items c, length_nextItems_le q h⟩ else none

-- The registers as a ring of 2^k slots.
def ring (s : VisibleFIFOF α k) : Ring α (2 ^ k) where
  head := s.head.toNat
  tail := s.tail.toNat
  buffer := fun i => s.buffer (BitVec.ofNat k i)
  pow := ⟨k, rfl⟩
  head_lt := s.head.isLt
  tail_lt := s.tail.isLt

def contents (s : VisibleFIFOF α k) : List α := s.ring.toList

variable {s t : VisibleFIFOF α k} {c : Cycle α}

theorem ring_next (s : VisibleFIFOF α k) (i : BitVec k) : s.ring.next i.toNat = (i + 1).toNat := by
  rw [Ring.next_eq_mod, BitVec.toNat_add]
  simp

-- Slot `i` of the ring is the register that peek(i) reads.
theorem buffer_slot (s : VisibleFIFOF α k) (i : BitVec k) :
    s.ring.buffer (s.ring.slot i.toNat) = s.buffer (s.head + i) := by
  refine congrArg s.buffer (BitVec.eq_of_toNat_eq ?_)
  rw [BitVec.toNat_ofNat, BitVec.toNat_add]
  exact Nat.mod_mod _ _

theorem toNat_count (s : VisibleFIFOF α k) : s.count.toNat = s.contents.length := by
  have hcount : s.count = s.tail - s.head := by
    rw [count, computeCount, BitVec.neg_sub, BitVec.add_comm, ← BitVec.sub_eq_add_neg, ite_self]
  have hhead := s.head.isLt
  have htail := s.tail.isLt
  rw [hcount, contents, Ring.length_toList, Ring.length, BitVec.toNat_sub]
  exact congrArg (· % 2 ^ k) (by simp only [ring]; omega)

theorem notEmpty_iff (s : VisibleFIFOF α k) : s.notEmpty = true ↔ s.contents ≠ [] := by
  have hempty := s.ring.isEmpty_iff
  rw [Ring.isEmpty, beq_iff_eq] at hempty
  rw [notEmpty, bne_iff_ne, ne_eq, ← BitVec.toNat_inj]
  exact not_congr hempty

theorem notFull_iff (s : VisibleFIFOF α k) : s.notFull = true ↔ s.contents.length < 2 ^ k - 1 := by
  have hfull := s.ring.full_iff
  have hlt := s.ring.length_lt
  have htail : s.ring.next s.ring.tail = (s.tail + 1).toNat := s.ring_next s.tail
  have hhead : s.ring.head = s.head.toNat := rfl
  rw [Ring.full, beq_iff_eq, htail, hhead, BitVec.toNat_inj] at hfull
  rw [notFull, bne_iff_ne, ne_eq, hfull, contents, Ring.length_toList]
  omega

theorem contents_init (memory : BitVec k → α) : (init memory).contents = [] :=
  (Ring.isEmpty_iff _).mp (beq_self_eq_true _)

-- A write to a register is a write to its slot.
theorem update_slot (s : VisibleFIFOF α k) (b : BitVec k) (x : α) (i : ℕ) :
    Function.update s.buffer b x (BitVec.ofNat k (s.ring.slot i)) =
      (s.ring.write b.toNat x).buffer (s.ring.slot i) := by
  have hslot : (BitVec.ofNat k (s.ring.slot i)).toNat = s.ring.slot i := by
    rw [BitVec.toNat_ofNat, Nat.mod_eq_of_lt (s.ring.slot_lt i)]
  by_cases heq : s.ring.slot i = b.toNat
  · rw [heq, BitVec.ofNat_toNat, BitVec.setWidth_eq, Function.update_self, Ring.buffer_write_self]
  · rw [Ring.buffer_write_of_ne _ _ heq, Function.update_of_ne (fun h => heq ?_)]
    · rfl
    · rw [← h, hslot]

-- The vacated slot is outside what is left, whatever is written there.
theorem contents_removed (s : VisibleFIFOF α k) (unspecified : α) (h : s.head ≠ s.tail) :
    s.contents = s.buffer s.head :: (s.removed unspecified).contents := by
  have hne : s.ring.head ≠ s.ring.tail := fun heq => h (BitVec.eq_of_toNat_eq heq)
  have hlen := s.ring.length_setHead hne
  have hlt := s.ring.length_lt
  have hhead : s.ring.buffer s.ring.head = s.buffer s.head := by simp [ring]
  have hrest : (s.removed unspecified).contents = (s.ring.setHead s.ring.head).toList := by
    refine Ring.toList_congr (s.ring_next s.head).symm rfl fun i hi => ?_
    rw [Ring.slot_setHead _ (by omega)]
    refine (s.update_slot s.head unspecified (i + 1)).trans ?_
    exact Ring.buffer_write_of_ne _ _ (s.ring.slot_ne_head (Nat.succ_pos i) (by omega))
  rw [contents, Ring.toList_cons _ hne, hhead, hrest]

theorem contents_appended (s : VisibleFIFOF α k) (data : α) (h : s.tail + 1 ≠ s.head) :
    (s.appended data).contents = s.contents ++ [data] := by
  have hroom : s.ring.next s.ring.tail ≠ s.ring.head := fun heq =>
    h (BitVec.eq_of_toNat_eq ((s.ring_next s.tail).symm.trans heq))
  calc (s.appended data).contents
      = ((s.ring.write s.ring.tail data).setTail s.ring.tail).toList :=
        Ring.toList_congr rfl (s.ring_next s.tail).symm fun i _ => s.update_slot s.tail data i
    _ = (s.ring.write s.ring.tail data).toList ++ [(s.ring.write s.ring.tail data).buffer s.ring.tail] :=
        Ring.toList_setTail (s.ring.write s.ring.tail data) hroom
    _ = s.contents ++ [data] := by
        rw [Ring.toList_write_tail, Ring.buffer_write_self]
        rfl

theorem step_eq_some : s.step c = some t ↔
    ((c.enq.isSome = true → s.notFull = true) ∧ (c.deq = true → s.notEmpty = true)) ∧
      s.canonicalize c = t := by
  rw [step, Option.ite_none_right_eq_some, Option.some.injEq]

-- Both in one cycle: the slot that is vacated is not the one that is filled.
theorem contents_canonicalize (h : s.step c = some t) : t.contents = nextItems s.contents c := by
  obtain ⟨⟨hfull, hempty⟩, rfl⟩ := step_eq_some.mp h
  have hdeq : ∀ r : VisibleFIFOF α k, r = (if c.deq then s.removed c.unspecified else s) →
      r.contents = (if c.deq then s.contents.tail else s.contents) ∧
        (c.enq.isSome = true → r.tail + 1 ≠ r.head) := by
    rintro r rfl
    cases hd : c.deq with
    | false => exact ⟨rfl, fun he => bne_iff_ne.mp (hfull he)⟩
    | true =>
        have hne : s.head ≠ s.tail := bne_iff_ne.mp (hempty hd)
        refine ⟨?_, fun _ heq => hne ((BitVec.add_left_inj _).mp heq).symm⟩
        simp only [if_true, s.contents_removed c.unspecified hne, List.tail_cons]
  obtain ⟨hrest, hroom⟩ := hdeq _ rfl
  rw [nextItems, ← hrest, canonicalize]
  cases he : c.enq with
  | none => simp
  | some data => exact contents_appended _ data (hroom (by rw [he]; rfl))

-- The module and the queue it stands for agree at the end of a cycle. An element stays in
-- its register, unaltered, through every further cycle that does not remove it.
structure Agrees (s : VisibleFIFOF α k) (items : List α) : Prop where
  bounded : items.length ≤ 2 ^ k - 1
  first : s.first = items.head?
  count : s.count.toNat = items.length
  peek : ∀ idx : BitVec k, idx < s.count → items[idx.toNat]? = some (s.peek idx)
  notEmpty : s.notEmpty = true ↔ 0 < items.length
  notFull : s.notFull = true ↔ items.length < 2 ^ k - 1
  kept : ∀ c t, s.step c = some t → ∀ idx : BitVec k, idx < s.count → (c.deq = true → idx ≠ 0) →
    t.buffer (s.head + idx) = s.buffer (s.head + idx)

theorem getElem_contents (s : VisibleFIFOF α k) (idx : BitVec k) (h : idx < s.count) :
    s.contents[idx.toNat]? = some (s.peek idx) := by
  have hlt : idx.toNat < s.ring.length := by
    rw [← Ring.length_toList]
    exact (BitVec.lt_def.mp h).trans_eq s.toNat_count
  rw [peek, ← s.buffer_slot idx]
  simp [contents, Ring.toList, hlt]

theorem first_eq (s : VisibleFIFOF α k) : s.first = s.contents.head? := by
  by_cases h : s.head = s.tail
  · have hnil : s.contents = [] := by
      by_contra hne
      exact bne_iff_ne.mp (s.notEmpty_iff.mpr hne) h
    rw [first, if_neg (not_not.mpr h), hnil, List.head?_nil]
  · rw [first, if_pos h, s.contents_removed (s.buffer s.head) h, List.head?_cons]

-- A live register is neither the one that deq vacates nor the one that enq fills.
theorem buffer_step (h : s.step c = some t) (idx : BitVec k) (hlive : idx < s.count)
    (hstays : c.deq = true → idx ≠ 0) : t.buffer (s.head + idx) = s.buffer (s.head + idx) := by
  obtain ⟨-, rfl⟩ := step_eq_some.mp h
  have hhead : c.deq = true → s.head + idx ≠ s.head := fun hd heq =>
    hstays hd ((BitVec.add_right_inj s.head).mp (heq.trans (BitVec.add_zero s.head).symm))
  have htail : s.head + idx ≠ s.tail := by
    intro heq
    have hlt : idx.toNat < s.ring.length := by
      rw [← Ring.length_toList]
      exact (BitVec.lt_def.mp hlive).trans_eq s.toNat_count
    refine s.ring.slot_ne_tail hlt (Eq.trans ?_ (congrArg BitVec.toNat heq))
    rw [BitVec.toNat_add]
    rfl
  have hremoved : (if c.deq then s.removed c.unspecified else s).buffer (s.head + idx) =
      s.buffer (s.head + idx) := by
    cases hd : c.deq with
    | false => rfl
    | true => exact Function.update_of_ne (hhead hd) _ _
  have hsame : (if c.deq then s.removed c.unspecified else s).tail = s.tail := by
    cases c.deq <;> rfl
  rw [canonicalize]
  cases c.enq with
  | none => exact hremoved
  | some data =>
      refine (Function.update_of_ne ?_ _ _).trans hremoved
      rw [hsame]
      exact htail

theorem agrees_contents (s : VisibleFIFOF α k) : Agrees s s.contents where
  bounded := by
    have hlt := s.ring.length_lt
    rw [contents, Ring.length_toList]
    omega
  first := s.first_eq
  count := s.toNat_count
  peek := s.getElem_contents
  notEmpty := s.notEmpty_iff.trans List.length_pos_iff.symm
  notFull := s.notFull_iff
  kept _ _ := buffer_step

def Represents (s : VisibleFIFOF α k) (q : Fifo α (2 ^ k - 1)) : Prop := s.contents = q.items

-- What one cycle does to the registers, it does to the queue.
theorem Represents.step {q : Fifo α (2 ^ k - 1)} (hrel : Represents s q) (h : s.step c = some t) :
    ∃ q', abstractStep q c = some q' ∧ Represents t q' := by
  have hitems := contents_canonicalize h
  obtain ⟨⟨hfull, hempty⟩, -⟩ := step_eq_some.mp h
  rw [hrel] at hitems
  have hpermits : Permits (2 ^ k - 1) q.items c := by
    rw [← hrel]
    exact ⟨fun he => s.notFull_iff.mp (hfull he), fun hd => s.notEmpty_iff.mp (hempty hd)⟩
  exact ⟨_, dif_pos hpermits, hitems⟩

theorem refines_bounded_queue (memory : BitVec k → α) (cycles : List (Cycle α))
    (s : VisibleFIFOF α k) (hrun : Run (Of step) (init memory) cycles s) :
    ∃ q : Fifo α (2 ^ k - 1), Run (Of abstractStep) Fifo.empty cycles q ∧ Agrees s q.items := by
  have hstart : Represents (init memory) Fifo.empty := contents_init memory
  have hstep : ∀ (s : VisibleFIFOF α k) q t c, Represents s q → Of step s c t →
      ∃ q', Of abstractStep q c q' ∧ Represents t q' := fun _ _ _ _ => Represents.step
  obtain ⟨q, hq, hrel⟩ := hrun.simulation hstart hstep
  exact ⟨q, hq, hrel ▸ s.agrees_contents⟩

-- A queue of depth 3: while the head leaves, another element enters in the same cycle, and
-- both indices wrap.
def wrapCycles : List (Cycle ℕ) :=
  [⟨some 1, false, 0⟩, ⟨some 2, false, 0⟩, ⟨some 3, true, 9⟩, ⟨some 4, false, 0⟩, ⟨none, true, 9⟩,
    ⟨some 5, true, 9⟩]

theorem refines_bounded_queue_wrap : ∃ s : VisibleFIFOF ℕ 2,
    Run (Of step) (init fun _ => 0) wrapCycles s ∧ s.contents = [4, 5] ∧
      ∃ q : Fifo ℕ (2 ^ 2 - 1), Run (Of abstractStep) Fifo.empty wrapCycles q ∧ Agrees s q.items := by
  have hexec : ((exec step (init fun _ => 0 : VisibleFIFOF ℕ 2) wrapCycles).any fun s =>
      s.contents = [4, 5]) = true := by
    decide
  obtain ⟨s, hs, hitems⟩ := (Option.any_eq_true _ _).mp hexec
  exact ⟨s, run_of_exec hs, of_decide_eq_true hitems, refines_bounded_queue _ _ _ (run_of_exec hs)⟩

end VisibleFIFOF

end Puppetmaster.Hardware
