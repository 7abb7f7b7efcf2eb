import Puppetmaster.Hardware.Executor
import Puppetmaster.Library.Transition

namespace Puppetmaster.Hardware

open Library Library.Transition

-- The txnIds of the messages of one puppet.
def scheduledFor (pid : PuppetId) (msgs : List ScheduleMessage) : List TransactionId :=
  (msgs.filter fun msg => msg.puppetId = pid).map ScheduleMessage.txnId

def doneFor (pid : PuppetId) (msgs : List WorkDoneMessage) : List TransactionId :=
  (msgs.filter fun msg => msg.puppetId = pid).map WorkDoneMessage.txnId

@[simp] theorem scheduledFor_nil (pid : PuppetId) : scheduledFor pid [] = [] := rfl

@[simp] theorem doneFor_nil (pid : PuppetId) : doneFor pid [] = [] := rfl

@[simp] theorem scheduledFor_append (pid : PuppetId) (xs ys : List ScheduleMessage) :
    scheduledFor pid (xs ++ ys) = scheduledFor pid xs ++ scheduledFor pid ys := by
  simp [scheduledFor]

@[simp] theorem doneFor_append (pid : PuppetId) (xs ys : List WorkDoneMessage) :
    doneFor pid (xs ++ ys) = doneFor pid xs ++ doneFor pid ys := by
  simp [doneFor]

@[simp] theorem scheduledFor_cons_self (msg : ScheduleMessage) (rest : List ScheduleMessage) :
    scheduledFor msg.puppetId (msg :: rest) = msg.txnId :: scheduledFor msg.puppetId rest := by
  simp [scheduledFor]

@[simp] theorem doneFor_cons_self (msg : WorkDoneMessage) (rest : List WorkDoneMessage) :
    doneFor msg.puppetId (msg :: rest) = msg.txnId :: doneFor msg.puppetId rest := by
  simp [doneFor]

theorem scheduledFor_cons_other {pid : PuppetId} {msg : ScheduleMessage} (h : msg.puppetId ≠ pid)
    (rest : List ScheduleMessage) : scheduledFor pid (msg :: rest) = scheduledFor pid rest := by
  simp [scheduledFor, h]

theorem doneFor_cons_other {pid : PuppetId} {msg : WorkDoneMessage} (h : msg.puppetId ≠ pid)
    (rest : List WorkDoneMessage) : doneFor pid (msg :: rest) = doneFor pid rest := by
  simp [doneFor, h]

theorem findElem_eq_some {v : PuppetId → Bool} {pid : PuppetId} (h : findElem v = some pid) :
    v pid = true := List.find?_some h

namespace FakeExecutor

variable {s t : FakeExecutor} {label : Label} {labels : List Label}

def Label.received : Label → Option ScheduleMessage
  | .request_put msg => some msg
  | _ => none

def Label.answered : Label → Option WorkDoneMessage
  | .response_get msg => some msg
  | _ => none

def Label.setsNumPuppets : Label → Bool
  | .setNumPuppets _ => true
  | _ => false

def executing (s : FakeExecutor) (pid : PuppetId) : List TransactionId :=
  ((s.puppets pid).map PuppetData.txnId).toList

def queued (s : FakeExecutor) (pid : PuppetId) : List TransactionId :=
  (s.puppetQ pid).items.map ScheduleMessage.txnId

-- What the executor has received for a puppet and not answered, oldest first.
def inside (s : FakeExecutor) (pid : PuppetId) : List TransactionId :=
  doneFor pid s.doneFF.items ++ s.executing pid ++ s.queued pid ++ scheduledFor pid s.schedFF.items

-- A message is in the queue of its puppet, no message names a puppet that does not
-- exist, and until a puppet register changes in a cycle the granted one is Valid.
structure Orderly (s : FakeExecutor) : Prop where
  owned : ∀ i, ∀ msg ∈ (s.puppetQ i).items, msg.puppetId = i
  bounded : ∀ msg ∈ s.schedFF.items, s.startWorkAssert msg = true
  waiting : ∀ i, ∀ msg ∈ (s.puppetQ i).items, s.startWorkAssert msg = true
  granted : s.port = .port0 → ∀ i, s.donePuppetArbResult i = true → (s.puppets i).isSome = true

theorem Orderly.reset (n : PuppetCount) : Orderly { FakeExecutor.reset with numPuppets := n } where
  owned _ _ hmsg := absurd hmsg List.not_mem_nil
  bounded _ hmsg := absurd hmsg List.not_mem_nil
  waiting _ _ hmsg := absurd hmsg List.not_mem_nil
  granted _ _ hgrant := absurd hgrant Bool.false_ne_true

theorem numPuppets_step (h : s.step label = some t) (hnum : label.setsNumPuppets = false) :
    t.numPuppets = s.numPuppets := by
  cases fires_of_step h with
  | setNumPuppets => simp [Label.setsNumPuppets] at hnum
  | _ => rfl

theorem startWorkAssert_step (h : s.step label = some t) (hnum : label.setsNumPuppets = false)
    (msg : ScheduleMessage) : t.startWorkAssert msg = s.startWorkAssert msg := by
  rw [startWorkAssert, startWorkAssert, numPuppets_step h hnum]

theorem isSome_of_grants {grant : PuppetId → Bool} {i : PuppetId} (h : s.Grants grant)
    (hi : grant i = true) : (s.puppets i).isSome = true := by
  rcases h with hnone | ⟨p, hp, hgrant⟩
  · simp [hnone i] at hi
  · rw [hgrant i, decide_eq_true_eq] at hi
    subst hi
    rw [puppetIsDone, Bool.and_eq_true] at hp
    cases hpuppet : s.puppets i with
    | none => simp [hpuppet, isDone] at hp
    | some puppet => rfl

theorem Orderly.step (h : Orderly s) (hstep : s.step label = some t)
    (hnum : label.setsNumPuppets = false)
    (hin : ∀ msg ∈ label.received, s.startWorkAssert msg = true) : Orderly t := by
  cases fires_of_step hstep with
  | @request_put msg q hsched =>
      refine ⟨h.owned, fun m hm => ?_, h.waiting, h.granted⟩
      rw [hsched, List.mem_append, List.mem_singleton] at hm
      rcases hm with hm | rfl
      · exact h.bounded m hm
      · exact hin m rfl
  | response_get hdone => exact ⟨h.owned, h.bounded, h.waiting, h.granted⟩
  | @fanout msg q qp hsched hq =>
      have hmem : ∀ i, ∀ m ∈ (Function.update s.puppetQ msg.puppetId qp i).items,
          m ∈ (s.puppetQ i).items ∨ (i = msg.puppetId ∧ m = msg) := by
        intro i m hm
        by_cases hi : i = msg.puppetId
        · subst hi
          rw [Function.update_self, hq, List.mem_append, List.mem_singleton] at hm
          exact hm.imp_right fun hmsg => ⟨rfl, hmsg⟩
        · rw [Function.update_of_ne hi] at hm
          exact Or.inl hm
      refine ⟨fun i m hm => ?_, fun m hm => ?_, fun i m hm => ?_, h.granted⟩
      · rcases hmem i m hm with hold | ⟨rfl, rfl⟩
        · exact h.owned i m hold
        · rfl
      · exact h.bounded m (hsched ▸ List.mem_cons_of_mem _ hm)
      · rcases hmem i m hm with hold | ⟨rfl, rfl⟩
        · exact h.waiting i m hold
        · exact h.bounded m (hsched ▸ List.mem_cons_self)
  | reportDone hport hpick hdata hdone => exact ⟨h.owned, h.bounded, h.waiting, nofun⟩
  | @startWork i msg q hidle hq =>
      have hmem : ∀ j, ∀ m ∈ (Function.update s.puppetQ i q j).items, m ∈ (s.puppetQ j).items := by
        intro j m hm
        by_cases hj : j = i
        · subst hj
          rw [Function.update_self] at hm
          rw [hq]
          exact List.mem_cons_of_mem _ hm
        · rwa [Function.update_of_ne hj] at hm
      exact ⟨fun j m hm => h.owned j m (hmem j m hm), h.bounded,
        fun j m hm => h.waiting j m (hmem j m hm), nofun⟩
  | endCycle hgrant =>
      exact ⟨h.owned, h.bounded, h.waiting, fun _ _ hi => isSome_of_grants (s := s) hgrant hi⟩
  | setDuration => exact ⟨h.owned, h.bounded, h.waiting, h.granted⟩
  | setNumPuppets => simp [Label.setsNumPuppets] at hnum

-- A step takes what it answers from the front and puts what it receives at the back.
theorem Orderly.inside_step (h : Orderly s) (hstep : s.step label = some t) (pid : PuppetId) :
    doneFor pid label.answered.toList ++ t.inside pid =
      s.inside pid ++ scheduledFor pid label.received.toList := by
  cases fires_of_step hstep with
  | @request_put msg q hsched =>
      simp only [Label.answered, Label.received, Option.toList_none, Option.toList_some, doneFor_nil,
        inside, executing, queued, hsched, scheduledFor_append, List.nil_append, List.append_assoc]
  | @response_get msg q hdone =>
      have hsplit : s.doneFF.items = [msg] ++ q.items := hdone
      simp only [Label.answered, Label.received, Option.toList_none, Option.toList_some,
        scheduledFor_nil, inside, executing, queued, hsplit, doneFor_append, List.append_nil,
        List.append_assoc]
  | @fanout msg q qp hsched hq =>
      simp only [Label.answered, Label.received, Option.toList_none, doneFor_nil, scheduledFor_nil,
        inside, executing, queued, hsched, List.nil_append, List.append_nil, List.append_assoc]
      by_cases hp : msg.puppetId = pid
      · subst hp
        simp only [Function.update_self, hq, List.map_append, List.map_cons, List.map_nil,
          scheduledFor_cons_self, List.append_assoc, List.singleton_append]
      · simp only [Function.update_of_ne (Ne.symm hp), scheduledFor_cons_other hp]
  | @reportDone msg q hport hpick hdata hdone =>
      simp only [Label.answered, Label.received, Option.toList_none, doneFor_nil, scheduledFor_nil,
        inside, executing, queued, hdone, doneFor_append, List.nil_append, List.append_nil,
        List.append_assoc]
      by_cases hp : msg.puppetId = pid
      · subst hp
        obtain ⟨puppet, hpuppet⟩ :=
          Option.isSome_iff_exists.mp (h.granted hport _ (findElem_eq_some hpick))
        simp only [Function.update_self, hpuppet, Option.map_some, Option.map_none,
          Option.toList_some, Option.toList_none, hdata puppet hpuppet, doneFor_cons_self,
          doneFor_nil, List.nil_append]
      · simp only [Function.update_of_ne (Ne.symm hp), doneFor_cons_other hp, doneFor_nil,
          List.nil_append]
  | @startWork i msg q hidle hq =>
      obtain rfl : msg.puppetId = i := h.owned i msg (hq ▸ List.mem_cons_self)
      simp only [Label.answered, Label.received, Option.toList_none, doneFor_nil, scheduledFor_nil,
        inside, executing, queued, List.nil_append, List.append_nil, List.append_assoc]
      by_cases hp : msg.puppetId = pid
      · subst hp
        simp only [Function.update_self, hidle, hq, Option.map_some, Option.map_none,
          Option.toList_some, Option.toList_none, List.map_cons, List.nil_append, List.cons_append]
      · simp only [Function.update_of_ne (Ne.symm hp)]
  | _ => exact (List.append_nil _).symm

end FakeExecutor

end Puppetmaster.Hardware
