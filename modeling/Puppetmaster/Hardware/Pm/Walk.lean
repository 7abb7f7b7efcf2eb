import Puppetmaster.Hardware.Pm.Conservation

namespace Puppetmaster.Hardware.Pm

open Library Library.Transition

variable {s t : Pm} {label : Label} {labels : List Label}

-- The transaction that a step puts into shadowSummary.
def shadowPut (s : Pm) : Label → Option Hashed
  | .shadowUpdateNew => s.shadowQ.first
  | .shadowUpdateExisting walked => walked
  | _ => none

def Label.admitted : Label → Option Hashed
  | .lookaheadStep3a txn _ => some txn
  | _ => none

def Label.refills : Label → Bool
  | .shadowUpdateNew => true
  | _ => false

def Label.setsNumPuppets : Label → Bool
  | .setNumPuppets _ => true
  | _ => false

-- The module, with all that was put into shadowSummary since the walk began.
structure Walk where
  pm : Pm
  put : List Hashed

def Walk.step (w : Walk) (label : Label) : Option Walk :=
  (w.pm.step label).map fun pm => ⟨pm, w.put ++ (w.pm.shadowPut label).toList⟩

-- A walk starts on the first entry of the first puppet, whatever the lists hold.
def walkStart (s : Pm) (lists : PuppetId → Fifo Hashed ActivePerPuppet) : Walk where
  pm := { s with
    puppetTxns := lists
    shadowPuppetIndex := 0
    shadowEntryIndex := 0
    shadowComplete := false }
  put := []

abbrev Walking (w : Walk) (label : Label) : Prop :=
  w.pm.shadowComplete = false ∧ label.setsNumPuppets = false

-- Any step of the module while the walk is on and numPuppets stays as it is.
abbrev WalkStep : Walk → Label → Walk → Prop := Meeting Walk.step Walking

def removals (labels : List Label) (pid : PuppetId) : ℕ :=
  (trace (Label.removedFrom pid) labels).length

-- The entries a list had when the walk began and still has.
def stillListed (lists : PuppetId → Fifo Hashed ActivePerPuppet) (labels : List Label)
    (pid : PuppetId) : List Hashed :=
  (lists pid).items.drop (removals labels pid)

-- What the walk is for: each of them has been put into shadowSummary.
def Rebuilt (numPuppets : PuppetCount) (lists : PuppetId → Fifo Hashed ActivePerPuppet)
    (labels : List Label) (put : List Hashed) : Prop :=
  ∀ pid : PuppetId, BitVec.ofNat 5 pid.val < numPuppets →
    ∀ txn ∈ stillListed lists labels pid, txn ∈ put

-- What the steps of shadowUpdateNew take from shadowQ: first what waited there when the walk
-- began, then what was admitted since.
def refilled (s : Pm) (labels : List Label) : List Hashed :=
  (s.shadowQ.items ++ trace Label.admitted labels).take (labels.countP Label.refills)

-- An entry is dealt with in another way than by the walk: clearWorkDone has removed it, or
-- shadowUpdateNew has taken it from shadowQ.
def Served (s : Pm) (lists : PuppetId → Fifo Hashed ActivePerPuppet) (labels : List Label) : Prop :=
  ∀ pid : PuppetId, BitVec.ofNat 5 pid.val < s.numPuppets →
    ∀ i (hi : i < (lists pid).items.length),
      i < removals labels pid ∨ (lists pid).items[i] ∈ refilled s labels

variable {w w' : Walk}

theorem Walk.step_eq_some : w.step label = some w' ↔
    w.pm.step label = some w'.pm ∧ w'.put = w.put ++ (w.pm.shadowPut label).toList := by
  simp only [Walk.step, Option.map_eq_some_iff]
  constructor
  · rintro ⟨t, ht, rfl⟩
    exact ⟨ht, rfl⟩
  · rintro ⟨ht, hput⟩
    exact ⟨w'.pm, ht, by rw [← hput]⟩

-- At every point of the walk a list is what is still listed, then what entered later.
theorem puppetTxns_eq {lists : PuppetId → Fifo Hashed ActivePerPuppet}
    (hrun : Run WalkStep (walkStart s lists) labels w) (pid : PuppetId) :
    ∃ later, (w.pm.puppetTxns pid).items = stillListed lists labels pid ++ later := by
  have hlist := hrun.history
    (fun labels w => (lists pid).items ++ trace (Label.enteredAt pid) labels =
      trace (Label.removedFrom pid) labels ++ (w.pm.puppetTxns pid).items)
    (List.append_nil _) fun _ _ _ _ h hstep => entered_step pid _ h (Walk.step_eq_some.mp hstep.1).1
  have hdrop := congrArg (List.drop (removals labels pid)) hlist
  rw [removals, List.drop_left, List.drop_append] at hdrop
  exact ⟨_, hdrop.symm⟩

-- No rule of the module writes recordedActiveTxnSize.
theorem recordedActiveTxnSize_step (h : s.step label = some t) :
    t.recordedActiveTxnSize = s.recordedActiveTxnSize := by
  cases fires_of_step h <;> rfl

theorem recordedActiveTxnSize_of_run {isCompat : Bool} {main shadow : TxnFingerprint}
    (hrun : Run (Of step) (reset isCompat main shadow) labels s) :
    s.recordedActiveTxnSize = fun _ => 0 :=
  hrun.invariant (fun s => s.recordedActiveTxnSize = fun _ => 0) rfl fun _ _ _ h hstep =>
    (recordedActiveTxnSize_step hstep).trans h

-- So no entry is ever valid to the walk: what a step puts is the oldest of shadowQ.
theorem shadowPut_step (hrecorded : s.recordedActiveTxnSize = fun _ => 0) (h : s.step label = some t) :
    s.shadowQ.items ++ label.admitted.toList = (s.shadowPut label).toList ++ t.shadowQ.items ∧
      (s.shadowPut label).toList.length = [label].countP Label.refills := by
  cases fires_of_step h with
  | shadowUpdateNew hshadow hfree =>
      have hput : s.shadowPut .shadowUpdateNew = some _ := Fifo.first_eq_some.mpr ⟨_, hshadow⟩
      rw [hput]
      exact ⟨(List.append_nil _).trans hshadow, rfl⟩
  | lookaheadStep3a hpid hfsm hcompat hbuf hmain hshadow => exact ⟨hshadow.symm, rfl⟩
  | walkPut hcomplete hentry hfree => simp [walkEntry, hrecorded] at hentry
  | _ => exact ⟨List.append_nil _, rfl⟩

-- What was put since the walk began, and what is still in the queue.
structure FromQueue (s : Pm) (labels : List Label) (w : Walk) : Prop where
  recorded : w.pm.recordedActiveTxnSize = fun _ => 0
  queued : s.shadowQ.items ++ trace Label.admitted labels = w.put ++ w.pm.shadowQ.items
  counted : w.put.length = labels.countP Label.refills

theorem FromQueue.step (h : FromQueue s labels w) (hstep : w.step label = some w') :
    FromQueue s (labels ++ [label]) w' := by
  obtain ⟨hpm, hput⟩ := Walk.step_eq_some.mp hstep
  obtain ⟨hqueued, hcounted⟩ := shadowPut_step h.recorded hpm
  refine ⟨(recordedActiveTxnSize_step hpm).trans h.recorded, ?_, ?_⟩
  · rw [trace_snoc, ← List.append_assoc, h.queued, hput, List.append_assoc, List.append_assoc, hqueued]
  · rw [hput, List.length_append, h.counted, hcounted, List.countP_append]

theorem put_eq (hrecorded : s.recordedActiveTxnSize = fun _ => 0)
    {lists : PuppetId → Fifo Hashed ActivePerPuppet} (hrun : Run WalkStep (walkStart s lists) labels w) :
    w.put = refilled s labels := by
  have h := hrun.history (FromQueue s) ⟨hrecorded, List.append_nil _, rfl⟩
    fun _ _ _ _ h hstep => h.step hstep.1
  rw [refilled, h.queued, ← h.counted, List.take_left]

-- The walk rebuilds the shadow exactly when nothing is left to it: every entry listed at its
-- start has been removed or came from shadowQ. This is so at each of its steps, the last one as
-- well.
theorem rebuilt_iff_served (isCompat : Bool) (main shadow : TxnFingerprint)
    (earlier labels : List Label) (s : Pm) (w : Walk) (lists : PuppetId → Fifo Hashed ActivePerPuppet)
    (hreach : Run (Of step) (reset isCompat main shadow) earlier s)
    (hwalk : Run WalkStep (walkStart s lists) labels w) :
    (∀ pid, ∃ later, (w.pm.puppetTxns pid).items = stillListed lists labels pid ++ later) ∧
      (Rebuilt s.numPuppets lists labels w.put ↔ Served s lists labels) := by
  refine ⟨puppetTxns_eq hwalk, ?_⟩
  rw [put_eq (recordedActiveTxnSize_of_run hreach) hwalk]
  refine forall_congr' fun pid => imp_congr_right fun _ => ?_
  constructor
  · intro h i hi
    by_cases hremoved : i < removals labels pid
    · exact Or.inl hremoved
    · have hmem : (lists pid).items[i] ∈ stillListed lists labels pid :=
        List.mem_drop_iff_getElem.mpr ⟨i - removals labels pid, by omega, by
          simp only [Nat.add_sub_cancel' (Nat.le_of_not_lt hremoved)]⟩
      exact Or.inr (h _ hmem)
  · intro h txn htxn
    obtain ⟨i, hi, rfl⟩ := List.mem_drop_iff_getElem.mp htxn
    exact (h (removals labels pid + i) (by omega)).resolve_left (by omega)

def activeHash : Hashed := Submitted.hash ⟨0, writesZero⟩

def otherHash : Hashed := Submitted.hash ⟨1, writesOne⟩

-- Two transactions are active, and the second is in shadowQ.
def bothRun : List Label :=
  firstRun ++ [.shadowUpdateNew, .shadowFinish] ++ arriveRun ⟨1, writesOne⟩ ++ admitRun ⟨1, writesOne⟩ 1

-- Eight steps take the walk over the eight puppets.
def walkRun : List Label := List.replicate 8 (.shadowUpdateExisting none)

-- While the walk goes on the first is removed, and the second comes out of shadowQ.
def servedWalkRun : List Label :=
  [.workDone_put ⟨7, 0⟩, .clearWorkDone activeHash 0, .shadowUpdateNew] ++ walkRun

theorem both_then_walk (labels : List Label)
    (hexec : ((exec step resetState bothRun).any fun s =>
      (s.puppetTxns 0).items = [activeHash] ∧ s.numPuppets = 8 ∧
        (exec (guarded Walk.step Walking) (walkStart s s.puppetTxns) labels).any fun w =>
          w.pm.shadowComplete) = true) :
    ∃ s w, Run (Of step) resetState bothRun s ∧ (s.puppetTxns 0).items = [activeHash] ∧
      s.numPuppets = 8 ∧ Run WalkStep (walkStart s s.puppetTxns) labels w ∧
        w.pm.shadowComplete = true := by
  obtain ⟨s, hs, hwalk⟩ := (Option.any_eq_true _ _).mp hexec
  obtain ⟨hitems, hnum, hwalk⟩ := of_decide_eq_true hwalk
  obtain ⟨w, hw, hend⟩ := (Option.any_eq_true _ _).mp hwalk
  exact ⟨s, w, run_of_exec hs, hitems, hnum, run_meeting_of_exec hw, hend⟩

theorem rebuilt_iff_served_walk :
    ∃ s w, Run (Of step) resetState bothRun s ∧
      Run WalkStep (walkStart s s.puppetTxns) servedWalkRun w ∧ w.pm.shadowComplete = true ∧
        (Rebuilt s.numPuppets s.puppetTxns servedWalkRun w.put ↔
          Served s s.puppetTxns servedWalkRun) := by
  obtain ⟨s, w, hs, -, -, hw, hend⟩ := both_then_walk servedWalkRun (by decide +kernel)
  exact ⟨s, w, hs, hw, hend, (rebuilt_iff_served _ _ _ _ _ s w s.puppetTxns hs hw).2⟩

-- The walk passes the transaction that is active on the first puppet.
theorem walk_skips_active :
    ∃ s w, Run (Of step) resetState bothRun s ∧
      Run WalkStep (walkStart s s.puppetTxns) walkRun w ∧ w.pm.shadowComplete = true ∧
        ¬Rebuilt s.numPuppets s.puppetTxns walkRun w.put := by
  obtain ⟨s, w, hs, hitems, hnum, hw, hend⟩ := both_then_walk walkRun (by decide +kernel)
  refine ⟨s, w, hs, hw, hend, fun hrebuilt => ?_⟩
  have hlisted : activeHash ∈ stillListed s.puppetTxns walkRun 0 := by
    rw [stillListed, hitems]
    exact List.mem_singleton_self _
  have hput := hrebuilt 0 (by rw [hnum]; decide) _ hlisted
  rw [put_eq (recordedActiveTxnSize_of_run hs) hw] at hput
  exact absurd hput List.not_mem_nil

end Puppetmaster.Hardware.Pm
