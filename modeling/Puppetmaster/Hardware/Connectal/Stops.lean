import Puppetmaster.Hardware.Connectal.Simulated
import Puppetmaster.Library.Journey

namespace Puppetmaster.Hardware

open Library Library.Transition Runner ClosedLoop

def HwOutput.txnLine : HwOutput → Option HwLine
  | .line l => some l
  | .refreshing _ => none

-- The lines of one transaction that goes all the way.
def course (pid : PuppetId) : List HwEvent :=
  [.submitted, .scheduled pid, .executing pid, .done pid, .removed]

-- The ids of the transactions that have been put and not admitted.
def Pm.waiting (s : Pm) : List TransactionId :=
  s.hasherIn.items.map (fun x => x.txn.txnId) ++ s.hasherOut.items.map (fun x => x.fingerprint.txnId) ++
    s.inputQ.items.map (fun x => x.fingerprint.txnId) ++
    s.lookaheadBuffer.items.map (fun x => x.fingerprint.txnId) ++
    s.lookaheadReinsert.items.map fun x => x.fingerprint.txnId

def removedId (l : HwLine) : Option TransactionId :=
  if l.event = .removed then some l.txnId else none

namespace Pm

variable {s t : Pm} {label : Label}

-- What the other rules and methods of the module see of a put, of step 3.a and of a removal.
theorem waiting_put {txn : Submitted} (h : s.step (.transactions_put txn) = some t) :
    t.waiting.Perm (txn.txn.txnId :: s.waiting) ∧ t.schedQ = s.schedQ ∧ t.workDoneQ = s.workDoneQ := by
  cases fires_of_step h with
  | @transactions_put _ q hserial hin =>
      refine ⟨List.perm_iff_count.mpr fun id => ?_, rfl, rfl⟩
      simp only [waiting, hin, List.map_append, List.map_cons, List.map_nil, List.count_append,
        List.count_cons, List.count_nil]
      omega

theorem waiting_step3a {txn : Hashed} {pid : PuppetId} (h : s.step (.lookaheadStep3a txn pid) = some t) :
    s.waiting.Perm (txn.fingerprint.txnId :: t.waiting) ∧
      t.schedQ.items = s.schedQ.items ++ [txn.message pid] ∧ t.workDoneQ = s.workDoneQ := by
  cases fires_of_step h with
  | lookaheadStep3a hpid hfsm hcompat hbuf hmain hshadow hsched htxns =>
      refine ⟨List.perm_iff_count.mpr fun id => ?_, hsched, rfl⟩
      simp only [waiting, hbuf, List.map_cons, List.count_append, List.count_cons]
      omega

theorem waiting_clearWorkDone {txn : Hashed} {pid : PuppetId} (h : s.step (.clearWorkDone txn pid) = some t) :
    t.waiting = s.waiting ∧ t.schedQ = s.schedQ ∧
      ∃ done, done.puppetId = pid ∧ s.workDoneQ.items = done :: t.workDoneQ.items := by
  cases fires_of_step h with
  | clearWorkDone hdone htxns => exact ⟨rfl, rfl, _, rfl, hdone⟩

theorem waiting_rule (h : s.step label = some t) (hrule : label.rule = true)
    (hadmits : label.admits = false) (hremoved : label.removedTxn = none) :
    t.waiting.Perm s.waiting ∧ t.schedQ = s.schedQ ∧ t.workDoneQ = s.workDoneQ := by
  cases fires_of_step h with
  | transactions_put | setNumPuppets | scheduled_get | workDone_put => simp [Label.rule] at hrule
  | lookaheadStep3a => simp [Label.admits] at hadmits
  | clearWorkDone => simp [Label.removedTxn] at hremoved
  | @doHash x qi qo hin hout =>
      refine ⟨List.perm_iff_count.mpr fun id => ?_, rfl, rfl⟩
      have hid : x.hash.fingerprint.txnId = x.txn.txnId := rfl
      simp only [waiting, hin, hout, hid, List.map_append, List.map_cons, List.map_nil,
        List.count_append, List.count_cons, List.count_nil]
      omega
  | hasherToInputQ hout hin =>
      refine ⟨List.perm_iff_count.mpr fun id => ?_, rfl, rfl⟩
      simp only [waiting, hin, hout, List.map_append, List.map_cons, List.map_nil,
        List.count_append, List.count_cons, List.count_nil]
      omega
  | drainReinsert hstate hre hbuf =>
      refine ⟨List.perm_iff_count.mpr fun id => ?_, rfl, rfl⟩
      simp only [waiting, hre, hbuf, List.map_append, List.map_cons, List.map_nil,
        List.count_append, List.count_cons, List.count_nil]
      omega
  | drainNew hstate hre hin hbuf =>
      refine ⟨List.perm_iff_count.mpr fun id => ?_, rfl, rfl⟩
      simp only [waiting, hin, hbuf, List.map_append, List.map_cons, List.map_nil,
        List.count_append, List.count_cons, List.count_nil]
      omega
  | lookaheadStep3b hpred hfsm hcompat hbuf hre =>
      refine ⟨List.perm_iff_count.mpr fun id => ?_, rfl, rfl⟩
      simp only [waiting, hbuf, hre, List.map_append, List.map_cons, List.map_nil,
        List.count_append, List.count_cons, List.count_nil]
      omega
  | _ => exact ⟨List.Perm.refl _, rfl, rfl⟩

-- Such a rule prints nothing about a transaction.
theorem output_rule (hadmits : label.admits = false) (hremoved : label.removedTxn = none)
    (cycle : Timestamp) : (s.output cycle label).filterMap HwOutput.txnLine = [] := by
  cases label with
  | lookaheadStep3a => simp [Label.admits] at hadmits
  | clearWorkDone => simp [Label.removedTxn] at hremoved
  | _ => rfl

end Pm

namespace Connectal

-- Where a transaction that the host has added can be, by what has been printed about it.
inductive Stop
  | queued
  | submitted
  | scheduled (pid : PuppetId)
  | executing (pid : PuppetId)
  | done (pid : PuppetId)
  | removed
  deriving DecidableEq, Fintype

def Stop.story : Stop → List HwEvent → Prop
  | .queued, l => l = []
  | .submitted, l => l = [.submitted]
  | .scheduled pid, l => l = [.submitted, .scheduled pid]
  | .executing pid, l => l = [.submitted, .scheduled pid, .executing pid]
  | .done pid, l => l = [.submitted, .scheduled pid, .executing pid, .done pid]
  | .removed, l => ∃ pid, l = course pid

theorem Stop.story_prefix {stop : Stop} {l : List HwEvent} (h : stop.story l) : ∃ pid, l <+: course pid := by
  cases stop with
  | queued => exact ⟨0, h ▸ List.nil_prefix⟩
  | submitted => exact ⟨0, h ▸ ⟨_, rfl⟩⟩
  | scheduled pid | executing pid | done pid => exact ⟨pid, h ▸ ⟨_, rfl⟩⟩
  | removed =>
      obtain ⟨pid, h⟩ := h
      exact ⟨pid, h ▸ List.prefix_rfl⟩

def lines (c : Connectal) : List HwLine := c.printed.filterMap HwOutput.txnLine

def ids (c : Connectal) : Stop → List TransactionId
  | .queued => c.fakeTxnDriver.txns.items.map Transaction.txnId
  | .submitted => c.fakeTxnDriver.outFF.items.map Transaction.txnId ++ c.pm.waiting
  | .scheduled pid => c.fakeExecutor.queued pid ++
      scheduledFor pid (c.fakeExecutor.schedFF.items ++ c.pm.schedQ.items)
  | .executing pid => c.fakeExecutor.executing pid
  | .done pid => doneFor pid (c.pm.workDoneQ.items ++ c.fakeExecutor.doneFF.items)
  | .removed => trace removedId c.lines

abbrev OnCourse (all : List TransactionId) (c : Connectal) : Prop :=
  Journey BitVec.toNat HwLine.txnId HwLine.event Stop.story all c.ids c.lines

def Label.added : Label → Option TransactionId
  | .addTransaction txn => some txn.txnId
  | _ => none

variable {n : PuppetCount} {c d : Connectal} {label : Label} {all : List TransactionId}

theorem toNat_injective : Function.Injective (BitVec.toNat : TransactionId → ℕ) :=
  fun _ _ h => BitVec.eq_of_toNat_eq h

theorem lines_append {out : List HwOutput} (h : d.printed = c.printed ++ out) :
    d.lines = c.lines ++ out.filterMap HwOutput.txnLine := by
  rw [lines, h, List.filterMap_append, lines]

theorem lines_line {l : HwLine} (h : d.printed = c.printed ++ [.line l]) :
    d.lines = c.lines ++ [l] := lines_append h

-- A step that moves nothing to another stop and prints nothing about a transaction.
theorem OnCourse.rest (h : OnCourse all c) (hids : ∀ stop, stop ≠ .removed → (d.ids stop).Perm (c.ids stop))
    (hlines : d.lines = c.lines) : OnCourse all d := by
  have hperm : ∀ stop, (d.ids stop).Perm (c.ids stop) := by
    intro stop
    by_cases hremoved : stop = .removed
    · subst hremoved
      rw [ids, ids, hlines]
    · exact hids stop hremoved
  have hnext := Journey.rest h hperm
  rwa [← hlines] at hnext

-- A step that takes a transaction to another stop and prints the line about it.
theorem OnCourse.advance (h : OnCourse all c) (p q : Stop) (l : HwLine) (hpq : p ≠ q)
    (hprinted : d.printed = c.printed ++ [.line l])
    (hstory : ∀ told, p.story told → q.story (told ++ [l.event]))
    (hp : (c.ids p).Perm (l.txnId :: d.ids p)) (hq : (d.ids q).Perm (l.txnId :: c.ids q))
    (hother : ∀ i, i ≠ p → i ≠ q → i ≠ .removed → d.ids i = c.ids i)
    (hevent : q ≠ .removed → l.event ≠ .removed) : OnCourse all d := by
  have hlines := lines_line hprinted
  rw [OnCourse, hlines]
  refine Journey.advance h toNat_injective p q hpq rfl hstory hp hq fun i hip hiq => ?_
  by_cases hi : i = .removed
  · subst hi
    have hnone : removedId l = none := if_neg (hevent (Ne.symm hiq))
    rw [ids, ids, hlines, trace_snoc_none removedId c.lines hnone]
  · exact hother i hip hiq hi

theorem scheduledFor_single (msg : ScheduleMessage) :
    scheduledFor msg.puppetId [msg] = [msg.txnId] := scheduledFor_cons_self msg []

theorem doneFor_single (msg : WorkDoneMessage) : doneFor msg.puppetId [msg] = [msg.txnId] :=
  doneFor_cons_self msg []

theorem OnCourse.populate (h : OnCourse all c) {txn : Transaction} {driver : FakeTxnDriver}
    (htxns : c.fakeTxnDriver.txns.items = txn :: driver.txns.items)
    (hout : driver.outFF.items = c.fakeTxnDriver.outFF.items ++ [txn]) :
    OnCourse all { c with
      fakeTxnDriver := driver
      printed := c.printed ++ [.line ⟨c.fakeTxnDriver.cycle, txn.txnId, .submitted⟩] } := by
  refine h.advance .queued .submitted ⟨c.fakeTxnDriver.cycle, txn.txnId, .submitted⟩ (by simp) rfl
    ?_ ?_ ?_ ?_ (by simp)
  · rintro told rfl
    rfl
  · simp only [ids, htxns, List.map_cons]
    exact .refl _
  · simp only [ids, hout, List.map_append, List.map_cons, List.map_nil, List.append_assoc]
    exact List.perm_middle
  · intro stop hqueued hsubmitted hremoved
    cases stop with
    | queued | submitted | removed => contradiction
    | _ => rfl

theorem OnCourse.step3a (h : OnCourse all c) {txn : Hashed} {pid : PuppetId} {pm : Pm}
    (hpm : c.pm.step (.lookaheadStep3a txn pid) = some pm) (cycle : Timestamp) (admitted : Bool) :
    OnCourse all { c with
      pm := pm
      admitted := admitted
      printed := c.printed ++ [.line ⟨cycle, txn.fingerprint.txnId, .scheduled pid⟩] } := by
  obtain ⟨hwaiting, hsched, hdone⟩ := Pm.waiting_step3a hpm
  have hsingle : scheduledFor pid [txn.message pid] = [txn.fingerprint.txnId] :=
    scheduledFor_single (txn.message pid)
  refine h.advance .submitted (.scheduled pid) ⟨cycle, txn.fingerprint.txnId, .scheduled pid⟩ (by simp)
    rfl ?_ ?_ ?_ ?_ (by simp)
  · rintro told rfl
    rfl
  · simp only [ids]
    exact (hwaiting.append_left _).trans List.perm_middle
  · simp only [ids, hsched, scheduledFor_append, hsingle, ← List.append_assoc]
    exact List.perm_append_singleton _ _
  · intro stop hsubmitted hscheduled hremoved
    cases stop with
    | submitted | removed => contradiction
    | scheduled p =>
        have hne : ¬ pid = p := fun heq => hscheduled (congrArg Stop.scheduled heq.symm)
        have hnone : scheduledFor p [txn.message pid] = [] := scheduledFor_cons_other hne []
        simp only [ids, hsched, scheduledFor_append, hnone, List.append_nil]
    | done p => simp only [ids, hdone]
    | _ => rfl

theorem OnCourse.startWork (h : OnCourse all c) {i : PuppetId} {executor : FakeExecutor}
    (horderly : c.fakeExecutor.Orderly) (hexec : c.fakeExecutor.step (.startWork i) = some executor) :
    OnCourse all { c with
      fakeExecutor := executor
      printed := c.printed ++ c.fakeExecutor.output (.startWork i) } := by
  cases FakeExecutor.fires_of_step hexec with
  | @startWork _ msg q hidle hq =>
      obtain rfl : msg.puppetId = i := horderly.owned i msg (hq ▸ List.mem_cons_self)
      have hfirst : (c.fakeExecutor.puppetQ msg.puppetId).first = some msg :=
        Fifo.first_eq_some.mpr ⟨_, hq⟩
      simp only [FakeExecutor.output, hfirst, Option.toList_some, List.map_cons, List.map_nil]
      refine h.advance (.scheduled msg.puppetId) (.executing msg.puppetId)
        ⟨c.fakeExecutor.cycle, msg.txnId, .executing msg.puppetId⟩ (by simp) rfl
        ?_ ?_ ?_ ?_ (by simp)
      · rintro told rfl
        rfl
      · simp only [ids, FakeExecutor.queued, hq, Function.update_self, List.map_cons, List.cons_append]
        exact .refl _
      · simp only [ids, FakeExecutor.executing, hidle, Function.update_self, Option.map_some,
          Option.map_none, Option.toList_some, Option.toList_none]
        exact .refl _
      · intro stop hscheduled hexecuting hremoved
        cases stop with
        | removed => contradiction
        | scheduled p =>
            have hne : p ≠ msg.puppetId := fun heq => hscheduled (congrArg Stop.scheduled heq)
            simp only [ids, FakeExecutor.queued, Function.update_of_ne hne]
        | executing p =>
            have hne : p ≠ msg.puppetId := fun heq => hexecuting (congrArg Stop.executing heq)
            simp only [ids, FakeExecutor.executing, Function.update_of_ne hne]
        | _ => rfl

theorem OnCourse.reportDone (h : OnCourse all c) {msg : WorkDoneMessage} {executor : FakeExecutor}
    (horderly : c.fakeExecutor.Orderly)
    (hexec : c.fakeExecutor.step (.reportDone msg) = some executor) :
    OnCourse all { c with
      fakeExecutor := executor
      printed := c.printed ++ c.fakeExecutor.output (.reportDone msg) } := by
  cases FakeExecutor.fires_of_step hexec with
  | @reportDone _ q hport hpick hdata hdone =>
      obtain ⟨puppet, hpuppet⟩ :=
        Option.isSome_iff_exists.mp (horderly.granted hport _ (findElem_eq_some hpick))
      refine h.advance (.executing msg.puppetId) (.done msg.puppetId)
        ⟨c.fakeExecutor.cycle, msg.txnId, .done msg.puppetId⟩ (by simp) rfl
        ?_ ?_ ?_ ?_ (by simp)
      · rintro told rfl
        rfl
      · simp only [ids, FakeExecutor.executing, hpuppet, Function.update_self, Option.map_some,
          Option.map_none, Option.toList_some, Option.toList_none, hdata puppet hpuppet]
        exact .refl _
      · simp only [ids, hdone, doneFor_append, doneFor_single, ← List.append_assoc]
        exact List.perm_append_singleton _ _
      · intro stop hexecuting hreported hremoved
        cases stop with
        | removed => contradiction
        | executing p =>
            have hne : p ≠ msg.puppetId := fun heq => hexecuting (congrArg Stop.executing heq)
            simp only [ids, FakeExecutor.executing, Function.update_of_ne hne]
        | done p =>
            have hne : ¬ msg.puppetId = p := fun heq => hreported (congrArg Stop.done heq.symm)
            have hnone : doneFor p [msg] = [] := doneFor_cons_other hne []
            simp only [ids, hdone, doneFor_append, hnone, List.append_nil]
        | _ => rfl

theorem OnCourse.clearWorkDone (h : OnCourse all c) {txn : Hashed} {pid : PuppetId} {pm : Pm}
    (hpm : c.pm.step (.clearWorkDone txn pid) = some pm) (cycle : Timestamp) (admitted : Bool) :
    OnCourse all { c with
      pm := pm
      admitted := admitted
      printed := c.printed ++ c.pm.output cycle (.clearWorkDone txn pid) } := by
  obtain ⟨hwaiting, hsched, done, rfl, hdone⟩ := Pm.waiting_clearWorkDone hpm
  have hfirst : c.pm.workDoneQ.first = some done := Fifo.first_eq_some.mpr ⟨_, hdone⟩
  simp only [Pm.output, hfirst, Option.toList_some, List.map_cons, List.map_nil]
  have hlines : lines { c with
      pm := pm
      admitted := admitted
      printed := c.printed ++ [.line ⟨cycle, done.txnId, .removed⟩] } =
        c.lines ++ [⟨cycle, done.txnId, .removed⟩] := lines_line rfl
  refine h.advance (.done done.puppetId) .removed ⟨cycle, done.txnId, .removed⟩ (by simp) rfl
    ?_ ?_ ?_ ?_ (by simp)
  · rintro told rfl
    exact ⟨done.puppetId, rfl⟩
  · simp only [ids, hdone, List.cons_append, doneFor_cons_self]
    exact .refl _
  · simp only [ids, hlines]
    have hremoved : removedId ⟨cycle, done.txnId, .removed⟩ = some done.txnId := if_pos rfl
    rw [trace_snoc_some removedId c.lines hremoved]
    exact List.perm_append_singleton _ _
  · intro stop hreported hcleared hremoved
    cases stop with
    | removed => contradiction
    | submitted => simp only [ids, hwaiting]
    | scheduled p => simp only [ids, hsched]
    | done p =>
        have hne : ¬ done.puppetId = p := fun heq => hreported (congrArg Stop.done heq.symm)
        simp only [ids, hdone, List.cons_append, doneFor_cons_other hne]
    | _ => rfl

theorem OnCourse.scheduled (h : OnCourse all c) {msg : ScheduleMessage} {pm : Pm} {executor : FakeExecutor}
    (hpm : c.pm.step (.scheduled_get msg) = some pm)
    (hexec : c.fakeExecutor.step (.request_put msg) = some executor) :
    OnCourse all { c with pm := pm, fakeExecutor := executor } := by
  cases Pm.fires_of_step hpm with
  | scheduled_get hsched =>
      cases FakeExecutor.fires_of_step hexec with
      | request_put hreq =>
          refine h.rest (fun stop _ => ?_) rfl
          cases stop with
          | scheduled p =>
              simp only [ids, FakeExecutor.queued, hsched, hreq, List.append_assoc, List.singleton_append]
              exact .refl _
          | _ => exact .refl _

theorem OnCourse.workDone (h : OnCourse all c) {msg : WorkDoneMessage} {pm : Pm} {executor : FakeExecutor}
    (hexec : c.fakeExecutor.step (.response_get msg) = some executor)
    (hpm : c.pm.step (.workDone_put msg) = some pm) :
    OnCourse all { c with pm := pm, fakeExecutor := executor } := by
  cases Pm.fires_of_step hpm with
  | workDone_put hput =>
      cases FakeExecutor.fires_of_step hexec with
      | response_get hdone =>
          refine h.rest (fun stop _ => ?_) rfl
          cases stop with
          | done p =>
              simp only [ids, hdone, hput, List.append_assoc, List.singleton_append]
              exact .refl _
          | _ => exact .refl _

theorem OnCourse.fanout (h : OnCourse all c) {executor : FakeExecutor}
    (hexec : c.fakeExecutor.step .fanout = some executor) :
    OnCourse all { c with
      fakeExecutor := executor
      printed := c.printed ++ c.fakeExecutor.output .fanout } := by
  cases FakeExecutor.fires_of_step hexec with
  | @fanout msg q qp hsched hq =>
      refine h.rest (fun stop hstop => ?_) ((lines_append rfl).trans (List.append_nil _))
      cases stop with
      | scheduled p =>
          by_cases hp : p = msg.puppetId
          · subst hp
            simp only [ids, FakeExecutor.queued, Function.update_self, hsched, hq, List.map_append,
              List.map_cons, List.map_nil, List.cons_append, scheduledFor_cons_self, List.append_assoc]
            exact .refl _
          · simp only [ids, FakeExecutor.queued, Function.update_of_ne hp, hsched, List.cons_append,
              scheduledFor_cons_other (Ne.symm hp)]
            exact .refl _
      | removed => contradiction
      | _ => exact .refl _

theorem OnCourse.transactions (h : OnCourse all c) {txn : Submitted} {pm : Pm} {driver : FakeTxnDriver}
    (htxns : driver.txns = c.fakeTxnDriver.txns)
    (hout : c.fakeTxnDriver.outFF.items = txn.txn :: driver.outFF.items)
    (hpm : c.pm.step (.transactions_put txn) = some pm) :
    OnCourse all { c with fakeTxnDriver := driver, pm := pm } := by
  obtain ⟨hwaiting, hsched, hdone⟩ := Pm.waiting_put hpm
  refine h.rest (fun stop _ => ?_) rfl
  cases stop with
  | queued => simp only [ids, htxns, List.Perm.refl]
  | submitted =>
      simp only [ids, hout, List.map_cons, List.cons_append]
      exact (hwaiting.append_left _).trans List.perm_middle
  | scheduled p => simp only [ids, hsched, List.Perm.refl]
  | done p => simp only [ids, hdone, List.Perm.refl]
  | _ => exact .refl _

theorem OnCourse.pmRule (h : OnCourse all c) {l : Pm.Label} {pm : Pm} (hpm : c.pm.step l = some pm)
    (hrule : l.rule = true) (admitted : Bool) :
    OnCourse all { c with
      pm := pm
      admitted := admitted
      printed := c.printed ++ c.pm.output c.cycle l } := by
  by_cases hadmits : l.admits = true
  · cases l with
    | lookaheadStep3a txn pid => exact h.step3a hpm c.cycle admitted
    | _ => simp [Pm.Label.admits] at hadmits
  · by_cases hremoved : l.removedTxn = none
    · have hadmits := Bool.eq_false_iff.mpr hadmits
      obtain ⟨hwaiting, hsched, hdone⟩ := Pm.waiting_rule hpm hrule hadmits hremoved
      refine h.rest (fun stop hstop => ?_) ?_
      · cases stop with
        | submitted => exact hwaiting.append_left _
        | scheduled p => simp only [ids, hsched, List.Perm.refl]
        | done p => simp only [ids, hdone, List.Perm.refl]
        | removed => contradiction
        | _ => exact .refl _
      · refine (lines_append rfl).trans ?_
        rw [Pm.output_rule hadmits hremoved, List.append_nil]
    · cases l with
      | clearWorkDone txn pid => exact h.clearWorkDone hpm c.cycle admitted
      | _ => exact absurd rfl hremoved

theorem OnCourse.executorRule (h : OnCourse all c) {l : FakeExecutor.Label} {executor : FakeExecutor}
    (horderly : c.fakeExecutor.Orderly) (hexec : c.fakeExecutor.step l = some executor)
    (hrule : l.rule = true) :
    OnCourse all { c with
      fakeExecutor := executor
      printed := c.printed ++ c.fakeExecutor.output l } := by
  cases l with
  | fanout => exact h.fanout hexec
  | reportDone msg => exact h.reportDone horderly hexec
  | startWork i => exact h.startWork horderly hexec
  | _ => simp [FakeExecutor.Label.rule] at hrule

theorem OnCourse.step_known (h : OnCourse all c) (hsim : Simulated n c) (hstep : c.step label = some d)
    (hadded : label.added = none) : OnCourse all d := by
  cases hsim.moves_of_step hstep with
  | addTransaction => cases hadded
  | submitted hstarted hpopulated hwait htxns hout => exact h.populate htxns hout
  | transactions hout hpm => exact h.transactions rfl hout hpm
  | scheduled hpm hexec => exact h.scheduled hpm hexec
  | workDone hexec hpm => exact h.workDone hexec hpm
  | pm hrule hadmitted hpm => exact h.pmRule hpm hrule _
  | executor hrule hexec => exact h.executorRule hsim.matched.orderly hexec hrule
  | endCycle hexec =>
      cases FakeExecutor.fires_of_step hexec
      exact h.rest (fun stop _ => by cases stop <;> exact .refl _) rfl
  | _ => exact h.rest (fun stop _ => by cases stop <;> exact .refl _) rfl

theorem OnCourse.step (h : OnCourse all c) (hsim : Simulated n c) (hstep : c.step label = some d)
    (hdistinct : (all ++ label.added.toList).Nodup) : OnCourse (all ++ label.added.toList) d := by
  cases hadded : label.added with
  | none =>
      rw [Option.toList_none, List.append_nil]
      exact h.step_known hsim hstep hadded
  | some id =>
      rw [hadded] at hdistinct
      cases hsim.moves_of_step hstep with
      | @addTransaction txn qt htxns =>
          obtain rfl := Option.some.inj hadded
          refine Journey.enter h toNat_injective Stop.queued hdistinct rfl ?_ fun stop hstop => ?_
          · simp only [ids, htxns, List.map_append, List.map_cons, List.map_nil]
            exact List.perm_append_singleton _ _
          · cases stop with
            | queued => contradiction
            | _ => rfl
      | _ => cases hadded

end Connectal

end Puppetmaster.Hardware
