import Puppetmaster.Library.Ring
import Puppetmaster.Library.Transition

namespace Puppetmaster.Wrapper

open Library Library.Transition

-- spsc_queue.h, one step for each access to shared memory. The acquire and release
-- orders let each access take effect where it stands in the program.

namespace SpscQueue

inductive ProducerCall (α : Type*)
  | enq (item : α)
  | full

inductive ConsumerCall
  | peek | deq

-- The next access of a thread, with the local variables it still reads.
inductive ProducerPC (α : Type*)
  | idle
  | loadHead (call : ProducerCall α) (tail : ℕ)
  | writeSlot (item : α) (tail : ℕ)
  | storeTail (item : α) (tail : ℕ)

inductive ConsumerPC (α : Type*)
  | idle
  | loadTail (call : ConsumerCall) (head : ℕ)
  | readSlot (call : ConsumerCall) (head : ℕ)
  | storeHead (item : α) (head : ℕ)

end SpscQueue

structure SpscQueue (α : Type*) (capacity : ℕ) where
  shared : Ring α capacity
  producer : SpscQueue.ProducerPC α
  consumer : SpscQueue.ConsumerPC α
  -- the items of the calls of _enq and of _deq that returned true
  enqueued : List α
  dequeued : List α

namespace SpscQueue

-- `full` and `empty` are what a thread finds when it compares the two indices.
inductive Label (α : Type*)
  | call (call : ProducerCall α)
  | loadHead (full : Bool)
  | writeSlot
  | storeTail
  | take (call : ConsumerCall)
  | loadTail (empty : Bool)
  | readSlot
  | storeHead

variable {α : Type*} {capacity : ℕ}

-- _init; the buffer is fresh memory with arbitrary contents.
def init (memory : ℕ → α) (hpow : ∃ k, capacity = 2 ^ k) : SpscQueue α capacity where
  shared := Ring.init memory hpow
  producer := .idle
  consumer := .idle
  enqueued := []
  dequeued := []

-- Where _enq and _full go on. Both return when the queue is full: _enq with false.
def foundRoom : ProducerCall α → ℕ → ProducerPC α
  | .enq item, tail => .writeSlot item tail
  | .full, _ => .idle

-- Where _peek and _deq go on with the item they copied: _peek returns.
def tookItem : ConsumerCall → α → ℕ → ConsumerPC α
  | .peek, _, _ => .idle
  | .deq, item, head => .storeHead item head

def step (s : SpscQueue α capacity) : Label α → Option (SpscQueue α capacity)
  | .call call =>
      match s.producer with
      | .idle => some { s with producer := .loadHead call s.shared.tail }
      | _ => none
  | .loadHead full =>
      match s.producer with
      | .loadHead call tail =>
          if (s.shared.next tail == s.shared.head) = full then
            some { s with producer := if full then .idle else foundRoom call tail }
          else none
      | _ => none
  | .writeSlot =>
      match s.producer with
      | .writeSlot item tail =>
          some { s with shared := s.shared.write tail item, producer := .storeTail item tail }
      | _ => none
  | .storeTail =>
      match s.producer with
      | .storeTail item tail => some { s with
          shared := s.shared.setTail tail
          producer := .idle
          enqueued := s.enqueued ++ [item] }
      | _ => none
  | .take call =>
      match s.consumer with
      | .idle => some { s with consumer := .loadTail call s.shared.head }
      | _ => none
  | .loadTail empty =>
      match s.consumer with
      | .loadTail call head =>
          if (head == s.shared.tail) = empty then
            some { s with consumer := if empty then .idle else .readSlot call head }
          else none
      | _ => none
  | .readSlot =>
      match s.consumer with
      | .readSlot call head =>
          some { s with consumer := tookItem call (s.shared.buffer head) head }
      | _ => none
  | .storeHead =>
      match s.consumer with
      | .storeHead item head => some { s with
          shared := s.shared.setHead head
          consumer := .idle
          dequeued := s.dequeued ++ [item] }
      | _ => none

variable {s t : SpscQueue α capacity} {label : Label α}

-- What each access requires and does.
inductive Fires (s : SpscQueue α capacity) : Label α → SpscQueue α capacity → Prop
  | call {call : ProducerCall α} (hpc : s.producer = .idle) :
      Fires s (.call call) { s with producer := .loadHead call s.shared.tail }
  | refuse {call : ProducerCall α} {tail : ℕ} (hpc : s.producer = .loadHead call tail)
      (hfull : s.shared.next tail = s.shared.head) :
      Fires s (.loadHead true) { s with producer := .idle }
  | room {call : ProducerCall α} {tail : ℕ} (hpc : s.producer = .loadHead call tail)
      (hroom : s.shared.next tail ≠ s.shared.head) :
      Fires s (.loadHead false) { s with producer := foundRoom call tail }
  | writeSlot {item : α} {tail : ℕ} (hpc : s.producer = .writeSlot item tail) :
      Fires s .writeSlot
        { s with shared := s.shared.write tail item, producer := .storeTail item tail }
  | storeTail {item : α} {tail : ℕ} (hpc : s.producer = .storeTail item tail) :
      Fires s .storeTail { s with
        shared := s.shared.setTail tail
        producer := .idle
        enqueued := s.enqueued ++ [item] }
  | take {call : ConsumerCall} (hpc : s.consumer = .idle) :
      Fires s (.take call) { s with consumer := .loadTail call s.shared.head }
  | nothing {call : ConsumerCall} {head : ℕ} (hpc : s.consumer = .loadTail call head)
      (hempty : head = s.shared.tail) :
      Fires s (.loadTail true) { s with consumer := .idle }
  | something {call : ConsumerCall} {head : ℕ} (hpc : s.consumer = .loadTail call head)
      (hsome : head ≠ s.shared.tail) :
      Fires s (.loadTail false) { s with consumer := .readSlot call head }
  | readSlot {call : ConsumerCall} {head : ℕ} (hpc : s.consumer = .readSlot call head) :
      Fires s .readSlot { s with consumer := tookItem call (s.shared.buffer head) head }
  | storeHead {item : α} {head : ℕ} (hpc : s.consumer = .storeHead item head) :
      Fires s .storeHead { s with
        shared := s.shared.setHead head
        consumer := .idle
        dequeued := s.dequeued ++ [item] }

theorem fires_of_step (h : s.step label = some t) : Fires s label t := by
  cases label with
  | loadHead full =>
      simp only [step] at h
      split at h
      · rename_i hpc
        obtain ⟨hfull, h⟩ := Option.ite_none_right_eq_some.mp h
        obtain rfl := Option.some.inj h
        cases full with
        | true => exact .refuse hpc (beq_iff_eq.mp hfull)
        | false => exact .room hpc (beq_eq_false_iff_ne.mp hfull)
      · simp at h
  | loadTail empty =>
      simp only [step] at h
      split at h
      · rename_i hpc
        obtain ⟨hempty, h⟩ := Option.ite_none_right_eq_some.mp h
        obtain rfl := Option.some.inj h
        cases empty with
        | true => exact .nothing hpc (beq_iff_eq.mp hempty)
        | false => exact .something hpc (beq_eq_false_iff_ne.mp hempty)
      · simp at h
  | _ =>
      simp only [step] at h
      split at h
      · rename_i hpc
        obtain rfl := Option.some.inj h
        first
          | exact .call hpc
          | exact .writeSlot hpc
          | exact .storeTail hpc
          | exact .take hpc
          | exact .readSlot hpc
          | exact .storeHead hpc
      · simp at h

end SpscQueue

end Puppetmaster.Wrapper
