import Puppetmaster.Wrapper.SpscQueue

namespace Puppetmaster.Wrapper.SpscQueue

open Library Library.Transition

variable {α : Type*} {capacity : ℕ} {s t : SpscQueue α capacity} {label : Label α}

-- What a thread knows about the shared indices at each point of its program. Its own index
-- is the one it loaded. The other may have moved on since, but only away from it.
def ProducerPC.Knows (q : Ring α capacity) : ProducerPC α → Prop
  | .idle => True
  | .loadHead _ tail => tail = q.tail
  | .writeSlot _ tail => tail = q.tail ∧ q.next tail ≠ q.head
  | .storeTail item tail => tail = q.tail ∧ q.next tail ≠ q.head ∧ q.buffer tail = item

def ConsumerPC.Knows (q : Ring α capacity) : ConsumerPC α → Prop
  | .idle => True
  | .loadTail _ head => head = q.head
  | .readSlot _ head => head = q.head ∧ head ≠ q.tail
  | .storeHead item head => head = q.head ∧ head ≠ q.tail ∧ q.buffer head = item

structure Consistent (s : SpscQueue α capacity) : Prop where
  content : s.enqueued = s.dequeued ++ s.shared.toList
  producer : s.producer.Knows s.shared
  consumer : s.consumer.Knows s.shared

theorem Consistent.init (memory : ℕ → α) (hpow : ∃ k, capacity = 2 ^ k) :
    Consistent (SpscQueue.init memory hpow) where
  content := (Ring.toList_init memory hpow).symm
  producer := trivial
  consumer := trivial

-- A write behind the tail changes nothing the consumer knows.
theorem ConsumerPC.Knows.write {pc : ConsumerPC α} {q : Ring α capacity} (item : α)
    (h : pc.Knows q) : pc.Knows (q.write q.tail item) := by
  cases pc with
  | idle => exact trivial
  | loadTail call head => exact h
  | readSlot call head => exact h
  | storeHead taken head =>
      obtain ⟨hhead, hne, htaken⟩ := h
      exact ⟨hhead, hne, (q.buffer_write_of_ne item hne).trans htaken⟩

-- Neither does a move of the tail to a slot other than the head.
theorem ConsumerPC.Knows.setTail {pc : ConsumerPC α} {q : Ring α capacity}
    (hroom : q.next q.tail ≠ q.head) (h : pc.Knows q) : pc.Knows (q.setTail q.tail) := by
  cases pc with
  | idle => exact trivial
  | loadTail call head => exact h
  | readSlot call head =>
      obtain ⟨rfl, hne⟩ := h
      exact ⟨rfl, hroom.symm⟩
  | storeHead taken head =>
      obtain ⟨rfl, hne, htaken⟩ := h
      exact ⟨rfl, hroom.symm, htaken⟩

-- When the head moves past an element, the tail is not about to catch up with it.
theorem ProducerPC.Knows.setHead {pc : ProducerPC α} {q : Ring α capacity}
    (hne : q.head ≠ q.tail) (h : pc.Knows q) : pc.Knows (q.setHead q.head) := by
  have hroom : q.next q.tail ≠ q.next q.head := fun heq =>
    hne (q.next_inj q.head_lt q.tail_lt heq.symm)
  cases pc with
  | idle => exact trivial
  | loadHead call tail => exact h
  | writeSlot item tail =>
      obtain ⟨rfl, hold⟩ := h
      exact ⟨rfl, hroom⟩
  | storeTail item tail =>
      obtain ⟨rfl, hold, hitem⟩ := h
      exact ⟨rfl, hroom, hitem⟩

theorem Consistent.step (hs : Consistent s) (h : s.step label = some t) : Consistent t := by
  obtain ⟨hcontent, hproducer, hconsumer⟩ := hs
  cases fires_of_step h with
  | call hpc => exact ⟨hcontent, rfl, hconsumer⟩
  | refuse hpc hfull => exact ⟨hcontent, trivial, hconsumer⟩
  | @room call tail hpc hroom =>
      rw [hpc] at hproducer
      cases call with
      | enq item => exact ⟨hcontent, ⟨hproducer, hroom⟩, hconsumer⟩
      | full => exact ⟨hcontent, trivial, hconsumer⟩
  | @writeSlot item tail hpc =>
      rw [hpc] at hproducer
      obtain ⟨rfl, hroom⟩ := hproducer
      exact ⟨by rw [hcontent, Ring.toList_write_tail],
        ⟨rfl, hroom, Ring.buffer_write_self _ _ _⟩, hconsumer.write item⟩
  | @storeTail item tail hpc =>
      rw [hpc] at hproducer
      obtain ⟨rfl, hroom, rfl⟩ := hproducer
      exact ⟨by rw [hcontent, Ring.toList_setTail _ hroom, List.append_assoc], trivial,
        hconsumer.setTail hroom⟩
  | take hpc => exact ⟨hcontent, hproducer, rfl⟩
  | nothing hpc hempty => exact ⟨hcontent, hproducer, trivial⟩
  | @something call head hpc hsome =>
      rw [hpc] at hconsumer
      exact ⟨hcontent, hproducer, hconsumer, hsome⟩
  | @readSlot call head hpc =>
      rw [hpc] at hconsumer
      cases call with
      | peek => exact ⟨hcontent, hproducer, trivial⟩
      | deq => exact ⟨hcontent, hproducer, hconsumer.1, hconsumer.2, rfl⟩
  | @storeHead item head hpc =>
      rw [hpc] at hconsumer
      obtain ⟨rfl, hne, rfl⟩ := hconsumer
      exact ⟨by rw [hcontent, Ring.toList_cons _ hne, List.append_cons],
        hproducer.setHead hne, trivial⟩

theorem consistent_of_run {memory : ℕ → α} {hpow : ∃ k, capacity = 2 ^ k}
    {labels : List (Label α)} (hrun : Run (Of step) (init memory hpow) labels s) : Consistent s :=
  hrun.invariant Consistent (Consistent.init memory hpow) fun _ _ _ h hstep => h.step hstep

-- A bounded first-in first-out queue under every interleaving of the accesses.
structure BoundedFifo (s : SpscQueue α capacity) : Prop where
  ordered : s.dequeued <+: s.enqueued
  bounded : s.enqueued.length ≤ s.dequeued.length + (capacity - 1)
  exclusive : ∀ item tail call head, s.producer = .writeSlot item tail →
    s.consumer = .readSlot call head → tail ≠ head
  refused : ∀ t, s.step (.loadHead true) = some t →
    s.enqueued.length = s.dequeued.length + (capacity - 1)
  empty : ∀ t, s.step (.loadTail true) = some t → s.dequeued = s.enqueued
  oldest : ∀ call head, s.consumer = .readSlot call head →
    s.enqueued[s.dequeued.length]? = some (s.shared.buffer head)

theorem Consistent.boundedFifo (hs : Consistent s) : BoundedFifo s := by
  obtain ⟨hcontent, hproducer, hconsumer⟩ := hs
  have hlength : s.enqueued.length = s.dequeued.length + s.shared.length := by
    rw [hcontent, List.length_append, Ring.length_toList]
  refine ⟨⟨_, hcontent.symm⟩, ?_, ?_, ?_, ?_, ?_⟩
  · have := s.shared.length_lt
    omega
  · intro item tail call head hwrite hread
    rw [hwrite] at hproducer
    rw [hread] at hconsumer
    obtain ⟨rfl, -⟩ := hproducer
    exact hconsumer.2.symm
  · intro t h
    cases fires_of_step h with
    | refuse hpc hfull =>
        rw [hpc] at hproducer
        obtain rfl : _ = s.shared.tail := hproducer
        have hlast := s.shared.full_iff.mp (beq_iff_eq.mpr hfull)
        rw [Ring.length_toList] at hlast
        omega
  · intro t h
    cases fires_of_step h with
    | nothing hpc hempty =>
        rw [hpc] at hconsumer
        obtain rfl : _ = s.shared.head := hconsumer
        rw [hcontent, s.shared.isEmpty_iff.mp (beq_iff_eq.mpr hempty), List.append_nil]
  · intro call head hread
    rw [hread] at hconsumer
    obtain ⟨rfl, hne⟩ := hconsumer
    rw [hcontent, Ring.toList_cons _ hne]
    simp

theorem bounded_fifo (memory : ℕ → α) (hpow : ∃ k, capacity = 2 ^ k) (labels : List (Label α))
    (s : SpscQueue α capacity) (hrun : Run (Of step) (init memory hpow) labels s) :
    BoundedFifo s :=
  (consistent_of_run hrun).boundedFifo

-- Both threads in the middle of a call on a queue of two slots: the consumer finds nothing
-- while the item is written, then takes it while the next one is refused.
def meetingRun : List (Label ℕ) :=
  [.call (.enq 5), .take .deq, .loadHead false, .writeSlot, .loadTail true, .storeTail,
    .take .peek, .loadTail false, .call (.enq 6), .readSlot, .take .deq, .loadTail false,
    .loadHead true, .readSlot, .storeHead, .call (.enq 6), .loadHead false, .writeSlot, .storeTail]

theorem bounded_fifo_meeting : ∃ s : SpscQueue ℕ 2,
    Run (Of step) (init (fun _ => 0) ⟨1, rfl⟩) meetingRun s ∧ BoundedFifo s ∧
      s.enqueued = [5, 6] ∧ s.dequeued = [5] := by
  have hexec : ((exec step (init (fun _ => 0) ⟨1, rfl⟩ : SpscQueue ℕ 2) meetingRun).any fun s =>
      s.enqueued = [5, 6] ∧ s.dequeued = [5]) = true := by
    decide
  obtain ⟨s, hs, hboth⟩ := (Option.any_eq_true _ _).mp hexec
  exact ⟨s, run_of_exec hs, bounded_fifo _ _ _ _ (run_of_exec hs), of_decide_eq_true hboth⟩

-- Seen from the other thread, a call takes effect at one access: where it stores its own
-- index or, when it changes nothing, where it looked at the other one.
structure Atomic (s : SpscQueue α capacity) : Prop where
  enq : ∀ item tail, s.producer = .storeTail item tail →
    s.shared.enq item = some (s.shared.setTail tail)
  enq_refused : ∀ item tail, s.producer = .loadHead (.enq item) tail →
    s.shared.next tail = s.shared.head → s.shared.enq item = none
  full : ∀ tail, s.producer = .loadHead .full tail →
    s.shared.full = (s.shared.next tail == s.shared.head)
  deq : ∀ item head, s.consumer = .storeHead item head →
    s.shared.deq = some (item, s.shared.setHead head)
  nothing : ∀ call head, s.consumer = .loadTail call head → head = s.shared.tail →
    s.shared.deq = none ∧ s.shared.peek = none
  peek : ∀ head, s.consumer = .readSlot .peek head → s.shared.peek = some (s.shared.buffer head)

theorem Consistent.atomic (hs : Consistent s) : Atomic s := by
  obtain ⟨-, hproducer, hconsumer⟩ := hs
  refine ⟨?_, ?_, ?_, ?_, ?_, ?_⟩
  · intro item tail hpc
    rw [hpc] at hproducer
    obtain ⟨rfl, hroom, rfl⟩ := hproducer
    rw [Ring.enq, if_neg hroom]
    simp only [Function.update_eq_self, Ring.setTail]
  · intro item tail hpc hfull
    rw [hpc] at hproducer
    obtain rfl : tail = s.shared.tail := hproducer
    exact if_pos hfull
  · intro tail hpc
    rw [hpc] at hproducer
    obtain rfl : tail = s.shared.tail := hproducer
    rfl
  · intro item head hpc
    rw [hpc] at hconsumer
    obtain ⟨rfl, hne, rfl⟩ := hconsumer
    exact if_neg hne
  · intro call head hpc hempty
    rw [hpc] at hconsumer
    obtain rfl : head = s.shared.head := hconsumer
    exact ⟨if_pos hempty, if_pos hempty⟩
  · intro head hpc
    rw [hpc] at hconsumer
    obtain ⟨rfl, hne⟩ := hconsumer
    exact if_neg hne

-- So a queue that both threads use is the ring of whole operations.
theorem atomic_of_run (memory : ℕ → α) (hpow : ∃ k, capacity = 2 ^ k) (labels : List (Label α))
    (s : SpscQueue α capacity) (hrun : Run (Of step) (init memory hpow) labels s) : Atomic s :=
  (consistent_of_run hrun).atomic

end Puppetmaster.Wrapper.SpscQueue
