import Puppetmaster.Library.Calls
import Puppetmaster.Library.Ring
import Puppetmaster.Wrapper.Txn

namespace Puppetmaster.Wrapper

open Library

-- st_queue.h. The indices are ints that are never negative.
structure StQueue (α : Type) where
  head : BitVec 32
  tail : BitVec 32
  capacity : BitVec 32
  mask : BitVec 32
  buffer : ℕ → α

namespace StQueue

variable {α : Type}

-- Nothing where the ASSERT does not hold. The buffer is memory as malloc gives it.
def init (memory : ℕ → α) (capacity : BitVec 32) : Option (StQueue α) :=
  if capacity &&& (capacity - 1) = 0 then
    some { head := 0, tail := 0, capacity, mask := capacity - 1, buffer := memory }
  else none

def enq (q : StQueue α) (item : α) : Bool × StQueue α :=
  let next_tail := (q.tail + 1) &&& q.mask
  if next_tail = q.head then (false, q)
  else (true, { q with buffer := Function.update q.buffer q.tail.toNat item, tail := next_tail })

-- The item is handed out iff the call returns true.
def deq (q : StQueue α) : Option α × StQueue α :=
  if q.head = q.tail then (none, q)
  else (some (q.buffer q.head.toNat), { q with head := (q.head + 1) &&& q.mask })

def peek (q : StQueue α) : Option α :=
  if q.head = q.tail then none else some (q.buffer q.head.toNat)

def full (q : StQueue α) : Bool := (q.tail + 1) &&& q.mask == q.head

def isEmpty (q : StQueue α) : Bool := q.head == q.tail

def length (q : StQueue α) : BitVec 32 := (q.tail - q.head + q.capacity) &&& q.mask

-- The inner loop of conflicts_with_active, for at most so many turns.
def scan (q : StQueue α) (test : α → Bool) : ℕ → BitVec 32 → Option Bool
  | 0, _ => none
  | fuel + 1, j =>
      if j ≠ q.tail then
        if test (q.buffer j.toNat) then some true else q.scan test fuel ((j + 1) &&& q.mask)
      else some false

end StQueue

-- The queues are those of the puppets that there are. The outer loop goes on until one of the
-- inner loops finds a conflict.
def conflicts_with_active {num_puppets : ℕ} (active_txns : Fin num_puppets → StQueue Txn) (fuel : ℕ)
    (new_txn : Txn) : Option Bool :=
  loop (List.finRange num_puppets)
where
  loop : List (Fin num_puppets) → Option Bool
    | [] => some false
    | puppet :: puppets =>
        match (active_txns puppet).scan (check_txn_conflict new_txn) fuel (active_txns puppet).head with
        | some true => some true
        | some false => loop puppets
        | none => none

namespace StQueue

-- The variables of a queue of which the ring is known.
def ofRing {α : Type} {capacity : ℕ} (q : Ring α capacity) : StQueue α where
  head := BitVec.ofNat 32 q.head
  tail := BitVec.ofNat 32 q.tail
  capacity := BitVec.ofNat 32 capacity
  mask := BitVec.ofNat 32 (capacity - 1)
  buffer := q.buffer

section

variable {α : Type} {capacity : ℕ} (q : Ring α capacity)

theorem next_ofNat (i : ℕ) :
    (BitVec.ofNat 32 i + 1) &&& BitVec.ofNat 32 (capacity - 1) = BitVec.ofNat 32 (q.next i) := by
  have hsucc : BitVec.ofNat 32 i + 1 = BitVec.ofNat 32 (i + 1) := (BitVec.ofNat_add i 1).symm
  rw [hsucc, ← BitVec.ofNat_and]
  rfl

theorem next_head :
    ((ofRing q).head + 1) &&& (ofRing q).mask = BitVec.ofNat 32 (q.next q.head) := next_ofNat q q.head

theorem next_tail :
    ((ofRing q).tail + 1) &&& (ofRing q).mask = BitVec.ofNat 32 (q.next q.tail) := next_ofNat q q.tail

variable (hcapacity : capacity ≤ 2 ^ 30)

include hcapacity

theorem toNat_ofNat {i : ℕ} (hi : i < capacity) : (BitVec.ofNat 32 i).toNat = i := by
  rw [BitVec.toNat_ofNat, Nat.mod_eq_of_lt (by omega)]

theorem ofNat_inj {i j : ℕ} (hi : i < capacity) (hj : j < capacity) :
    BitVec.ofNat 32 i = BitVec.ofNat 32 j ↔ i = j := by
  rw [← BitVec.toNat_inj, toNat_ofNat hcapacity hi, toNat_ofNat hcapacity hj]

theorem head_eq_tail : (ofRing q).head = (ofRing q).tail ↔ q.head = q.tail :=
  ofNat_inj hcapacity q.head_lt q.tail_lt

theorem head_toNat : (ofRing q).head.toNat = q.head := toNat_ofNat hcapacity q.head_lt

theorem tail_toNat : (ofRing q).tail.toNat = q.tail := toNat_ofNat hcapacity q.tail_lt

theorem next_tail_eq_head : BitVec.ofNat 32 (q.next q.tail) = (ofRing q).head ↔ q.next q.tail = q.head :=
  ofNat_inj hcapacity (q.next_lt q.tail) q.head_lt

theorem enq_ofRing (item : α) : (ofRing q).enq item =
    match q.enq item with
    | some q' => (true, ofRing q')
    | none => (false, ofRing q) := by
  simp only [enq, next_tail, next_tail_eq_head q hcapacity, tail_toNat q hcapacity, Ring.enq]
  split_ifs <;> rfl

theorem deq_ofRing : (ofRing q).deq =
    match q.deq with
    | some (item, q') => (some item, ofRing q')
    | none => (none, ofRing q) := by
  simp only [deq, head_eq_tail q hcapacity, next_head, head_toNat q hcapacity, Ring.deq]
  split_ifs <;> rfl

theorem peek_ofRing : (ofRing q).peek = q.peek := by
  simp only [peek, head_eq_tail q hcapacity, head_toNat q hcapacity, Ring.peek]
  rfl

theorem full_ofRing : (ofRing q).full = q.full := by
  rw [Bool.eq_iff_iff, full, Ring.full, beq_iff_eq, beq_iff_eq, next_tail, next_tail_eq_head q hcapacity]

theorem isEmpty_ofRing : (ofRing q).isEmpty = q.isEmpty := by
  rw [Bool.eq_iff_iff, isEmpty, Ring.isEmpty, beq_iff_eq, beq_iff_eq, head_eq_tail q hcapacity]

-- The sum may pass 2^32, which is a multiple of the capacity.
theorem length_ofRing : (ofRing q).length.toNat = q.length := by
  have hhead := head_toNat q hcapacity
  have htail := tail_toNat q hcapacity
  have hhead_lt := q.head_lt
  obtain ⟨k, rfl⟩ := q.pow
  have hpos := Nat.two_pow_pos k
  have hcap : (ofRing q).capacity.toNat = 2 ^ k := Nat.mod_eq_of_lt (by omega)
  have hmask : (ofRing q).mask.toNat = 2 ^ k - 1 := Nat.mod_eq_of_lt (by omega)
  obtain ⟨c, hc⟩ : 2 ^ k ∣ 2 ^ 32 := by
    have hk : k < 31 := (Nat.pow_lt_pow_iff_right (show 1 < 2 by decide)).mp (by omega)
    exact pow_dvd_pow 2 (by omega)
  have hsplit : 2 ^ 32 - q.head + q.tail + 2 ^ k = q.tail + 2 ^ k - q.head + 2 ^ k * c := by omega
  rw [length, BitVec.toNat_and, BitVec.toNat_add, BitVec.toNat_sub, hhead, htail, hcap, hmask,
    Nat.and_two_pow_sub_one_eq_mod, Nat.mod_add_mod, Nat.mod_mod_of_dvd _ ⟨c, hc⟩, hsplit,
    Nat.add_mul_mod_self_left]
  rfl

theorem scan_ofRing (test : α → Bool) (fuel : ℕ) {j : ℕ} (hj : j < capacity) :
    (ofRing q).scan test fuel (BitVec.ofNat 32 j) = q.scan test fuel j := by
  induction fuel generalizing j with
  | zero => rfl
  | succ fuel ih =>
      have htail : BitVec.ofNat 32 j = (ofRing q).tail ↔ j = q.tail := ofNat_inj hcapacity hj q.tail_lt
      have hnext : (BitVec.ofNat 32 j + 1) &&& (ofRing q).mask = BitVec.ofNat 32 (q.next j) :=
        next_ofNat q j
      simp only [scan, Ring.scan, htail, hnext, toNat_ofNat hcapacity hj, ih (q.next_lt j), ne_eq, ite_not]
      rfl

end

-- The calls for one queue; _init with the capacities that it is for.
inductive Call (α : Type) where
  | init (memory : ℕ → α) (capacity : BitVec 32) (hpow : ∃ k : ℕ, capacity.toInt = 2 ^ k)
  | enq (item : α)
  | deq
  | peek
  | full
  | isEmpty
  | length

inductive Answer (α : Type) where
  | done
  | flag (b : Bool)
  | item (x : Option α)
  | number (n : ℤ)

-- A queue is there after its _init.
def answer {α : Type} : Call α → Option (StQueue α) → Option (Answer α × StQueue α)
  | .init memory capacity _, _ => (init memory capacity).map fun q => (.done, q)
  | .enq item, some q => some (.flag (q.enq item).1, (q.enq item).2)
  | .deq, some q => some (.item q.deq.1, q.deq.2)
  | .peek, some q => some (.item q.peek, q)
  | .full, some q => some (.flag q.full, q)
  | .isEmpty, some q => some (.flag q.isEmpty, q)
  | .length, some q => some (.number q.length.toInt, q)
  | _, none => none

-- What the queue is for: a list with room for less than the capacity.
structure FifoList (α : Type) where
  capacity : ℕ
  items : List α

def FifoList.answer {α : Type} : Call α → Option (FifoList α) → Option (Answer α × FifoList α)
  | .init _ capacity _, _ => some (.done, ⟨capacity.toNat, []⟩)
  | .enq item, some l =>
      if l.items.length < l.capacity - 1 then some (.flag true, { l with items := l.items ++ [item] })
      else some (.flag false, l)
  | .deq, some l => some (.item l.items.head?, { l with items := l.items.tail })
  | .peek, some l => some (.item l.items.head?, l)
  | .full, some l => some (.flag (decide (l.items.length = l.capacity - 1)), l)
  | .isEmpty, some l => some (.flag l.items.isEmpty, l)
  | .length, some l => some (.number l.items.length, l)
  | _, none => none

def Represents {α : Type} (q : StQueue α) (l : FifoList α) : Prop :=
  ∃ ring : Ring α l.capacity, l.capacity ≤ 2 ^ 30 ∧ q = ofRing ring ∧ ring.toList = l.items

section

variable {α : Type}

-- As an int a power of two is at most 2^30.
theorem toNat_capacity {capacity : BitVec 32} (hpow : ∃ k : ℕ, capacity.toInt = 2 ^ k) :
    ∃ k ≤ 30, capacity.toNat = 2 ^ k := by
  obtain ⟨k, hk⟩ := hpow
  have hlt := capacity.isLt
  have hpos := Nat.two_pow_pos k
  have hcast : ((2 ^ k : ℕ) : ℤ) = 2 ^ k := Int.natCast_pow 2 k
  rw [BitVec.toInt_eq_toNat_cond, ← hcast] at hk
  split_ifs at hk with hsmall
  · have hnat : capacity.toNat = 2 ^ k := by omega
    have hk' : k < 31 := (Nat.pow_lt_pow_iff_right (show 1 < 2 by decide)).mp (by omega)
    exact ⟨k, by omega, hnat⟩
  · omega

theorem init_represents (memory : ℕ → α) {capacity : BitVec 32} (hpow : ∃ k : ℕ, capacity.toInt = 2 ^ k) :
    ∃ q, init memory capacity = some q ∧ Represents q ⟨capacity.toNat, []⟩ := by
  obtain ⟨k, hk, hnat⟩ := toNat_capacity hpow
  have hle : capacity.toNat ≤ 2 ^ 30 := hnat ▸ Nat.pow_le_pow_right (by decide) hk
  have hpos : 0 < capacity.toNat := hnat ▸ Nat.two_pow_pos k
  have hpred : (capacity - 1).toNat = capacity.toNat - 1 := BitVec.toNat_sub_of_le hpos
  have hassert : capacity &&& (capacity - 1) = 0 := by
    rw [← BitVec.toNat_inj, BitVec.toNat_and, hpred, hnat, Nat.and_two_pow_sub_one_eq_mod, Nat.mod_self]
    rfl
  refine ⟨_, if_pos hassert, Ring.init memory ⟨k, hnat⟩, hle, ?_, Ring.toList_init memory _⟩
  have hmask : BitVec.ofNat 32 (capacity.toNat - 1) = capacity - 1 := by
    rw [← hpred, BitVec.ofNat_toNat, BitVec.setWidth_eq]
  rw [ofRing, BitVec.ofNat_toNat, BitVec.setWidth_eq, hmask]
  rfl

theorem Represents.enq {q : StQueue α} {l : FifoList α} (h : Represents q l) (item : α) :
    Option.Rel (Agree Represents) (answer (.enq item) (some q)) (FifoList.answer (.enq item) (some l)) := by
  obtain ⟨ring, hcapacity, rfl, hitems⟩ := h
  have hfull := ring.full_iff
  have hlt := ring.length_lt
  have hpos := ring.capacity_pos
  rw [Ring.length_toList] at hfull
  rw [answer, FifoList.answer, enq_ofRing ring hcapacity, ← hitems, Ring.length_toList]
  cases henq : ring.enq item with
  | none =>
      have hlength := hfull.mp (Ring.enq_eq_none.mp henq)
      rw [if_neg (by omega)]
      exact .some ⟨rfl, ring, hcapacity, rfl, hitems⟩
  | some ring' =>
      have hlength : ¬ ring.length + 1 = l.capacity := fun h => by
        rw [Ring.enq_eq_none.mpr (hfull.mpr h)] at henq
        cases henq
      rw [if_pos (by omega)]
      exact .some ⟨rfl, ring', hcapacity, rfl, Ring.toList_enq henq⟩

theorem Represents.deq {q : StQueue α} {l : FifoList α} (h : Represents q l) :
    Option.Rel (Agree Represents) (answer .deq (some q)) (FifoList.answer .deq (some l)) := by
  obtain ⟨ring, hcapacity, rfl, hitems⟩ := h
  rw [answer, FifoList.answer, deq_ofRing ring hcapacity, ← hitems]
  cases hdeq : ring.deq with
  | none =>
      rw [Ring.deq_eq_none.mp hdeq]
      exact .some ⟨rfl, ring, hcapacity, rfl, Ring.deq_eq_none.mp hdeq⟩
  | some result =>
      obtain ⟨item, ring'⟩ := result
      rw [Ring.toList_deq hdeq]
      exact .some ⟨rfl, ring', hcapacity, rfl, rfl⟩

section

variable {q : StQueue α} {l : FifoList α} (h : Represents q l)

include h

theorem Represents.peek : q.peek = l.items.head? := by
  obtain ⟨ring, hcapacity, rfl, hitems⟩ := h
  rw [peek_ofRing ring hcapacity, ring.peek_eq, hitems]

theorem Represents.full : q.full = decide (l.items.length = l.capacity - 1) := by
  obtain ⟨ring, hcapacity, rfl, hitems⟩ := h
  have hpos := ring.capacity_pos
  rw [full_ofRing ring hcapacity, Bool.eq_iff_iff, ring.full_iff, hitems, decide_eq_true_eq]
  omega

theorem Represents.isEmpty : q.isEmpty = l.items.isEmpty := by
  obtain ⟨ring, hcapacity, rfl, hitems⟩ := h
  rw [isEmpty_ofRing ring hcapacity, Bool.eq_iff_iff, ring.isEmpty_iff, hitems, List.isEmpty_iff]

theorem Represents.length : q.length.toInt = l.items.length := by
  obtain ⟨ring, hcapacity, rfl, hitems⟩ := h
  have hlength := length_ofRing ring hcapacity
  have hlt := ring.length_lt
  rw [BitVec.toInt_eq_toNat_of_lt (by omega), hlength, ← hitems, Ring.length_toList]

end

-- Each call is answered as for the list, or by both not at all.
theorem answer_agree (call : Call α) (q : Option (StQueue α)) (l : Option (FifoList α))
    (h : Option.Rel Represents q l) : Option.Rel (Agree Represents) (answer call q) (FifoList.answer call l) := by
  cases call with
  | init memory capacity hpow =>
      obtain ⟨q', hinit, hq'⟩ := init_represents memory hpow
      rw [answer, FifoList.answer, hinit]
      exact .some ⟨rfl, hq'⟩
  | enq item =>
      cases h with
      | none => exact .none
      | some h => exact h.enq item
  | deq =>
      cases h with
      | none => exact .none
      | some h => exact h.deq
  | peek =>
      cases h with
      | none => exact .none
      | some h => exact .some ⟨congrArg Answer.item h.peek, h⟩
  | full =>
      cases h with
      | none => exact .none
      | some h => exact .some ⟨congrArg Answer.flag h.full, h⟩
  | isEmpty =>
      cases h with
      | none => exact .none
      | some h => exact .some ⟨congrArg Answer.flag h.isEmpty, h⟩
  | length =>
      cases h with
      | none => exact .none
      | some h => exact .some ⟨congrArg Answer.number h.length, h⟩

end

theorem Represents.scan {α : Type} {q : StQueue α} {l : FifoList α} (h : Represents q l) (test : α → Bool)
    {fuel : ℕ} (hfuel : 2 ^ 30 ≤ fuel) : q.scan test fuel q.head = some (l.items.any test) := by
  obtain ⟨ring, hcapacity, rfl, hitems⟩ := h
  have hlt := ring.length_lt
  have hslot : ring.slot 0 = ring.head := Nat.mod_eq_of_lt ring.head_lt
  have hscan := ring.scan_slot test fuel 0 (Nat.zero_le _) (by omega)
  rw [hslot, List.drop_zero, hitems] at hscan
  exact (scan_ofRing ring hcapacity test fuel ring.head_lt).trans hscan

-- The loops have an end, and have then met each live transaction up to a first conflict.
theorem conflicts_with_active_eq {num_puppets : ℕ} {active_txns : Fin num_puppets → StQueue Txn}
    {lists : Fin num_puppets → FifoList Txn} (h : ∀ puppet, Represents (active_txns puppet) (lists puppet))
    {fuel : ℕ} (hfuel : 2 ^ 30 ≤ fuel) (new_txn : Txn) :
    conflicts_with_active active_txns fuel new_txn =
      some ((List.finRange num_puppets).any fun puppet =>
        (lists puppet).items.any (check_txn_conflict new_txn)) := by
  unfold conflicts_with_active
  generalize List.finRange num_puppets = puppets
  induction puppets with
  | nil => rfl
  | cons puppet puppets ih =>
      rw [conflicts_with_active.loop, (h puppet).scan _ hfuel, List.any_cons]
      cases (lists puppet).items.any (check_txn_conflict new_txn) with
      | true => rfl
      | false => exact ih

-- A family of queues is used as lists would be, and the scan of the active transactions finds what
-- these hold.
theorem st_queues_represent_lists :
    (∀ {ι α : Type} [DecidableEq ι] (calls : List (ι × Call α)),
      Option.Rel (fun x y => x.1 = y.1 ∧ ∀ i, Option.Rel Represents (x.2 i) (y.2 i))
        (runCalls answer (fun _ => none) calls) (runCalls FifoList.answer (fun _ => none) calls)) ∧
    ∀ {num_puppets : ℕ} (calls : List (Fin num_puppets × Call Txn)) (answers : List (Answer Txn))
      (active_txns : Fin num_puppets → StQueue Txn),
      runCalls answer (fun _ => none) calls = some (answers, fun puppet => some (active_txns puppet)) →
        ∃ lists : Fin num_puppets → FifoList Txn,
          runCalls FifoList.answer (fun _ => none) calls =
            some (answers, fun puppet => some (lists puppet)) ∧
          ∀ new_txn, ∃ b : Bool, ∃ turns, (∀ fuel ≥ turns,
            conflicts_with_active active_txns fuel new_txn = some b) ∧
              (b = true ↔ ∃ puppet, ∃ txn ∈ (lists puppet).items, check_txn_conflict new_txn txn = true) := by
  have hnone {ι α : Type} (i : ι) :
      Option.Rel (@Represents α) ((fun _ => none) i) ((fun _ => none) i) := .none
  refine ⟨fun calls => runCalls_agree answer_agree calls hnone, fun {num_puppets} calls answers active_txns hcalls => ?_⟩
  have hagree := runCalls_agree answer_agree calls fun puppet => hnone puppet
  rw [hcalls] at hagree
  obtain ⟨⟨answers', t⟩, hlists, heq, hrep⟩ := rel_some hagree
  obtain rfl : answers = answers' := heq
  choose lists ht hlist using fun puppet => rel_some (hrep puppet)
  obtain rfl : t = fun puppet => some (lists puppet) := funext ht
  refine ⟨lists, hlists, fun new_txn => ?_⟩
  refine ⟨_, 2 ^ 30, fun fuel hfuel => conflicts_with_active_eq hlist hfuel new_txn, ?_⟩
  simp only [List.any_eq_true, List.mem_finRange, true_and]

-- The second of two puppets has had a full queue, and its tail has passed the end of the buffer.
def twoPuppets : List (Fin 2 × Call Txn) :=
  [(0, .init (fun _ => .writing 0 0) 2 ⟨1, by decide⟩), (1, .init (fun _ => .writing 0 0) 4 ⟨2, by decide⟩),
    (1, .enq (.writing 5 7)), (1, .enq (.writing 6 8)), (1, .enq (.writing 7 9)), (1, .enq (.writing 8 9)),
    (1, .deq), (1, .enq (.writing 9 10)), (1, .deq), (1, .enq (.writing 10 11)), (1, .length)]

def twoPuppetsAnswers : List (Answer Txn) :=
  [.done, .done, .flag true, .flag true, .flag true, .flag false, .item (some (.writing 5 7)), .flag true,
    .item (some (.writing 6 8)), .flag true, .number 3]

def fullBuffer : ℕ → Txn :=
  Function.update (Function.update (Function.update (Function.update (Function.update
    (fun _ => .writing 0 0) 0 (.writing 5 7)) 1 (.writing 6 8)) 2 (.writing 7 9)) 3 (.writing 9 10)) 0 (.writing 10 11)

def twoPuppetsAfter : Fin 2 → StQueue Txn
  | 0 => ⟨0, 0, 2, 1, fun _ => .writing 0 0⟩
  | 1 => ⟨2, 1, 4, 3, fullBuffer⟩

theorem runCalls_twoPuppets : runCalls answer (fun _ => none) twoPuppets =
    some (twoPuppetsAnswers, fun puppet => some (twoPuppetsAfter puppet)) := by
  refine congrArg some (Prod.ext rfl (funext fun puppet => ?_))
  match puppet with
  | 0 => rfl
  | 1 => rfl

theorem st_queues_represent_lists_twoPuppets :
    ∃ lists : Fin 2 → FifoList Txn,
      runCalls FifoList.answer (fun _ => none) twoPuppets =
        some (twoPuppetsAnswers, fun puppet => some (lists puppet)) ∧
      ∀ new_txn, ∃ b : Bool, ∃ turns, (∀ fuel ≥ turns,
        conflicts_with_active twoPuppetsAfter fuel new_txn = some b) ∧
          (b = true ↔ ∃ puppet, ∃ txn ∈ (lists puppet).items, check_txn_conflict new_txn txn = true) :=
  st_queues_represent_lists.2 twoPuppets _ twoPuppetsAfter runCalls_twoPuppets

end StQueue

end Puppetmaster.Wrapper
