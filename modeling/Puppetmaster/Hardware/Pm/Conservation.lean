import Mathlib.Tactic.DeriveFintype
import Puppetmaster.Hardware.Pm.Rules
import Puppetmaster.Library.Inventory
import Puppetmaster.Library.Transition

namespace Puppetmaster.Hardware.Pm

open Library Library.Transition

variable {s t : Pm} {label : Label} {labels : List Label}

def Label.acceptedTxn : Label → Option Submitted
  | .transactions_put txn => some txn
  | _ => none

def Label.removedTxn : Label → Option Submitted
  | .clearWorkDone txn _ => some txn.source
  | _ => none

def Label.enteredAt (pid : PuppetId) : Label → Option Hashed
  | .lookaheadStep3a txn pid' => if pid' = pid then some txn else none
  | _ => none

def Label.removedFrom (pid : PuppetId) : Label → Option Hashed
  | .clearWorkDone txn pid' => if pid' = pid then some txn else none
  | _ => none

@[simp] theorem Label.enteredAt_self (txn : Hashed) (pid : PuppetId) :
    Label.enteredAt pid (.lookaheadStep3a txn pid) = some txn := if_pos rfl

theorem Label.enteredAt_other (txn : Hashed) {pid pid' : PuppetId} (h : pid' ≠ pid) :
    Label.enteredAt pid (.lookaheadStep3a txn pid') = none := if_neg h

@[simp] theorem Label.removedFrom_self (txn : Hashed) (pid : PuppetId) :
    Label.removedFrom pid (.clearWorkDone txn pid) = some txn := if_pos rfl

theorem Label.removedFrom_other (txn : Hashed) {pid pid' : PuppetId} (h : pid' ≠ pid) :
    Label.removedFrom pid (.clearWorkDone txn pid') = none := if_neg h

def Label.sentMessage : Label → Option ScheduleMessage
  | .scheduled_get msg => some msg
  | _ => none

inductive CheckEvent
  | asked (txn : Hashed)
  | answered (compat : Bool)

def Label.checkEvent : Label → Option CheckEvent
  | .drainLookahead txn => some (.asked txn)
  | .lookaheadStep2 answer => some (.answered answer)
  | _ => none

-- Where an accepted transaction can be.
inductive Place
  | hasherIn
  | hasherOut
  | inputQ
  | lookaheadBuffer
  | lookaheadReinsert
  | puppetTxns (pid : PuppetId)
  | removed
  deriving DecidableEq, Fintype

def holds (labels : List Label) (s : Pm) : Place → List Submitted
  | .hasherIn => s.hasherIn.items
  | .hasherOut => s.hasherOut.items.map Hashed.source
  | .inputQ => s.inputQ.items.map Hashed.source
  | .lookaheadBuffer => s.lookaheadBuffer.items.map Hashed.source
  | .lookaheadReinsert => s.lookaheadReinsert.items.map Hashed.source
  | .puppetTxns pid => (s.puppetTxns pid).items.map Hashed.source
  | .removed => trace Label.removedTxn labels

theorem holds_snoc (hlabel : label.removedTxn = none) :
    holds (labels ++ [label]) s = holds labels s := by
  funext place
  cases place with
  | removed => exact trace_snoc_none _ labels hlabel
  | _ => rfl

-- A transaction leaves the front of one place for the back of another.
theorem inventory_holds_move (p q : Place) {txn : Hashed} {ps qs : List Hashed} (hpq : p ≠ q)
    (hp : holds labels s p = (txn :: ps).map Hashed.source)
    (hp' : holds labels t p = ps.map Hashed.source) (hq : holds labels s q = qs.map Hashed.source)
    (hq' : holds labels t q = (qs ++ [txn]).map Hashed.source)
    (hother : ∀ i, i ≠ p → i ≠ q → holds labels t i = holds labels s i) :
    inventory (holds labels t) = inventory (holds labels s) := by
  refine inventory_move p q txn.source hpq ?_ ?_ hother
  · rw [hp, hp', List.map_cons]
  · rw [hq, hq', List.map_append, List.map_cons, List.map_nil]

-- A step accepts what is put and otherwise moves at most one transaction.
theorem inventory_holds_step (h : s.step label = some t) :
    inventory (holds (labels ++ [label]) t) =
      (label.acceptedTxn.toList : Multiset Submitted) + inventory (holds labels s) := by
  cases fires_of_step h with
  | @transactions_put txn q hserial hin =>
      rw [holds_snoc rfl]
      refine inventory_gain Place.hasherIn ?_ fun i hi => ?_
      · simp only [holds, hin]
        exact List.perm_append_singleton txn _
      · cases i <;> first | rfl | contradiction
  | @doHash x qi qo hin hout =>
      rw [holds_snoc rfl]
      refine (inventory_move .hasherIn .hasherOut x (by decide) hin ?_ fun i hi hj => ?_).trans
        (zero_add _).symm
      · simp only [holds, hout, List.map_append, List.map_cons, List.map_nil, Submitted.hash_source]
      · cases i <;> first | rfl | contradiction
  | hasherToInputQ hout hin =>
      rw [holds_snoc rfl]
      refine (inventory_holds_move .hasherOut .inputQ (by decide) (congrArg _ hout) rfl rfl
        (congrArg _ hin) fun i hi hj => ?_).trans (zero_add _).symm
      cases i <;> first | rfl | contradiction
  | drainReinsert hstate hre hbuf =>
      rw [holds_snoc rfl]
      refine (inventory_holds_move .lookaheadReinsert .lookaheadBuffer (by decide)
        (congrArg _ hre) rfl rfl (congrArg _ hbuf) fun i hi hj => ?_).trans (zero_add _).symm
      cases i <;> first | rfl | contradiction
  | drainNew hstate hre hin hbuf =>
      rw [holds_snoc rfl]
      refine (inventory_holds_move .inputQ .lookaheadBuffer (by decide) (congrArg _ hin) rfl rfl
        (congrArg _ hbuf) fun i hi hj => ?_).trans (zero_add _).symm
      cases i <;> first | rfl | contradiction
  | @lookaheadStep3a txn pid qb qs qm txns hpid hfsm hcompat hbuf hmain hshadow hsched htxns =>
      rw [holds_snoc rfl]
      refine (inventory_holds_move .lookaheadBuffer (.puppetTxns pid) (by simp) (congrArg _ hbuf)
        rfl rfl ?_ fun i hi hj => ?_).trans (zero_add _).symm
      · simp only [holds, Function.update_self, htxns]
      · cases i with
        | puppetTxns pid' =>
            have hne : pid' ≠ pid := fun he => hj (he ▸ rfl)
            simp only [holds, Function.update_of_ne hne]
        | lookaheadBuffer => contradiction
        | _ => rfl
  | lookaheadStep3b hpred hfsm hcompat hbuf hre =>
      rw [holds_snoc rfl]
      refine (inventory_holds_move .lookaheadBuffer .lookaheadReinsert (by decide)
        (congrArg _ hbuf) rfl rfl (congrArg _ hre) fun i hi hj => ?_).trans (zero_add _).symm
      cases i <;> first | rfl | contradiction
  | @clearWorkDone done txn qw txns hdone htxns =>
      refine (inventory_move (.puppetTxns done.puppetId) .removed txn.source (by simp) ?_
        (trace_snoc_some Label.removedTxn labels rfl) fun i hi hj => ?_).trans (zero_add _).symm
      · simp only [holds, htxns, Function.update_self, List.map_cons]
      · cases i with
        | puppetTxns pid' =>
            have hne : pid' ≠ done.puppetId := fun he => hi (he ▸ rfl)
            simp only [holds, Function.update_of_ne hne]
        | removed => contradiction
        | _ => rfl
  | _ =>
      rw [holds_snoc rfl]
      exact (inventory_congr fun i => by cases i <;> rfl).trans (zero_add _).symm

-- Every put gets the next number.
theorem serials_step (hserials : (trace Label.acceptedTxn labels).map Submitted.serial =
    List.range s.accepted) (h : s.step label = some t) :
    (trace Label.acceptedTxn (labels ++ [label])).map Submitted.serial = List.range t.accepted := by
  cases fires_of_step h with
  | transactions_put hserial hin =>
      rw [trace_snoc_some Label.acceptedTxn labels rfl, List.map_append, hserials, List.map_cons, List.map_nil,
        hserial, List.range_succ]
  | _ =>
      rw [trace_snoc_none Label.acceptedTxn labels rfl]
      exact hserials

-- What a list held or what entered it, and was not removed, is in it in that order.
theorem entered_step (pid : PuppetId) (start : List Hashed)
    (hlist : start ++ trace (Label.enteredAt pid) labels =
      trace (Label.removedFrom pid) labels ++ (s.puppetTxns pid).items)
    (h : s.step label = some t) : start ++ trace (Label.enteredAt pid) (labels ++ [label]) =
      trace (Label.removedFrom pid) (labels ++ [label]) ++ (t.puppetTxns pid).items := by
  cases fires_of_step h with
  | @lookaheadStep3a txn pid' qb qs qm txns hpid hfsm hcompat hbuf hmain hshadow hsched htxns =>
      rw [trace_snoc_none (Label.removedFrom pid) labels rfl]
      by_cases hp : pid' = pid
      · subst hp
        rw [trace_snoc_some _ labels (Label.enteredAt_self txn pid'), ← List.append_assoc, hlist]
        simp only [Function.update_self, htxns, List.append_assoc]
      · rw [trace_snoc_none _ labels (Label.enteredAt_other txn hp), hlist]
        simp only [Function.update_of_ne (Ne.symm hp)]
  | @clearWorkDone done txn qw txns hdone htxns =>
      rw [trace_snoc_none (Label.enteredAt pid) labels rfl]
      by_cases hp : done.puppetId = pid
      · subst hp
        rw [trace_snoc_some _ labels (Label.removedFrom_self txn done.puppetId), hlist, htxns]
        simp only [Function.update_self, List.append_assoc, List.singleton_append]
      · rw [trace_snoc_none _ labels (Label.removedFrom_other txn hp), hlist]
        simp only [Function.update_of_ne (Ne.symm hp)]
  | _ =>
      rw [trace_snoc_none (Label.enteredAt pid) labels rfl,
        trace_snoc_none (Label.removedFrom pid) labels rfl]
      exact hlist

-- The messages of a puppet, sent or still queued.
def messages (labels : List Label) (s : Pm) (pid : PuppetId) : List ScheduleMessage :=
  (trace Label.sentMessage labels ++ s.schedQ.items).filter fun msg => msg.puppetId = pid

theorem messages_step (pid : PuppetId) (hmsgs : messages labels s pid =
    (trace (Label.enteredAt pid) labels).map fun txn => txn.message pid)
    (h : s.step label = some t) : messages (labels ++ [label]) t pid =
      (trace (Label.enteredAt pid) (labels ++ [label])).map fun txn => txn.message pid := by
  unfold messages at *
  cases fires_of_step h with
  | @lookaheadStep3a txn pid' qb qs qm txns hpid hfsm hcompat hbuf hmain hshadow hsched htxns =>
      rw [trace_snoc_none Label.sentMessage labels rfl]
      simp only [hsched]
      rw [← List.append_assoc, List.filter_append, hmsgs]
      by_cases hp : pid' = pid
      · subst hp
        rw [trace_snoc_some _ labels (Label.enteredAt_self txn pid')]
        simp [Hashed.message]
      · rw [trace_snoc_none _ labels (Label.enteredAt_other txn hp)]
        simp [Hashed.message, hp]
  | scheduled_get hsched =>
      rw [trace_snoc_some Label.sentMessage labels rfl,
        trace_snoc_none (Label.enteredAt pid) labels rfl, ← hmsgs, hsched, List.append_assoc,
        List.singleton_append]
  | _ =>
      rw [trace_snoc_none Label.sentMessage labels rfl,
        trace_snoc_none (Label.enteredAt pid) labels rfl]
      exact hmsgs

-- The number of entries in all lists.
def numActive (lists : PuppetId → Fifo Hashed ActivePerPuppet) : ℕ :=
  ∑ pid, (lists pid).items.length

theorem numActive_le (lists : PuppetId → Fifo Hashed ActivePerPuppet) : numActive lists ≤ 112 := by
  have hle := Finset.sum_le_card_nsmul Finset.univ (fun pid => (lists pid).items.length)
    ActivePerPuppet fun pid _ => (lists pid).bound
  rwa [Finset.card_univ, Fintype.card_fin] at hle

theorem numActive_update (lists : PuppetId → Fifo Hashed ActivePerPuppet) (pid : PuppetId)
    (txns : Fifo Hashed ActivePerPuppet) :
    numActive (Function.update lists pid txns) + (lists pid).items.length =
      numActive lists + txns.items.length := by
  have hrest : ∑ p ∈ Finset.univ.erase pid, (Function.update lists pid txns p).items.length =
      ∑ p ∈ Finset.univ.erase pid, (lists p).items.length :=
    Finset.sum_congr rfl fun p hp => by rw [Function.update_of_ne (Finset.ne_of_mem_erase hp)]
  rw [numActive, numActive, ← Finset.add_sum_erase _ _ (Finset.mem_univ pid),
    ← Finset.add_sum_erase _ _ (Finset.mem_univ pid), hrest, Function.update_self]
  omega

theorem counted_step (hcount : s.numTxnScheduled.toNat = numActive s.puppetTxns)
    (h : s.step label = some t) : t.numTxnScheduled.toNat = numActive t.puppetTxns := by
  have hle := numActive_le t.puppetTxns
  cases fires_of_step h with
  | @lookaheadStep3a txn pid qb qs qm txns hpid hfsm hcompat hbuf hmain hshadow hsched htxns =>
      have hupdate := numActive_update s.puppetTxns pid txns
      rw [htxns, List.length_append, List.length_singleton] at hupdate
      simp only [BitVec.toNat_add, hcount, BitVec.ofNat_eq_ofNat, BitVec.toNat_ofNat] at hle ⊢
      omega
  | @clearWorkDone done txn qw txns hdone htxns =>
      have hupdate := numActive_update s.puppetTxns done.puppetId txns
      rw [htxns, List.length_cons] at hupdate
      simp only [BitVec.toNat_sub, hcount, BitVec.ofNat_eq_ofNat, BitVec.toNat_ofNat] at hle ⊢
      omega
  | _ => exact hcount

-- While the FSM is busy, the head of the buffer is the transaction asked about last,
-- and in step 3 isCompat is the answer.
structure Latched (labels : List Label) (s : Pm) : Prop where
  step2 : s.lookaheadFSM = .step2 → ∃ earlier txn rest,
    trace Label.checkEvent labels = earlier ++ [.asked txn] ∧
      s.lookaheadBuffer.items = txn :: rest
  step3 : s.lookaheadFSM = .step3 → ∃ earlier txn rest,
    trace Label.checkEvent labels = earlier ++ [.asked txn, .answered s.isCompat] ∧
      s.lookaheadBuffer.items = txn :: rest

theorem Latched.quiet (hlatched : Latched labels s) (hevent : label.checkEvent = none)
    (hfsm : t.lookaheadFSM = s.lookaheadFSM) (hcompat : t.isCompat = s.isCompat)
    (hbuf : ∃ new, t.lookaheadBuffer.items = s.lookaheadBuffer.items ++ new) :
    Latched (labels ++ [label]) t := by
  obtain ⟨new, hbuf⟩ := hbuf
  constructor
  · intro hstep2
    obtain ⟨earlier, txn, rest, hevents, hold⟩ := hlatched.step2 (hfsm ▸ hstep2)
    refine ⟨earlier, txn, rest ++ new, ?_, by rw [hbuf, hold, List.cons_append]⟩
    rw [trace_snoc_none _ labels hevent, hevents]
  · intro hstep3
    obtain ⟨earlier, txn, rest, hevents, hold⟩ := hlatched.step3 (hfsm ▸ hstep3)
    refine ⟨earlier, txn, rest ++ new, ?_, by rw [hbuf, hold, List.cons_append]⟩
    rw [trace_snoc_none _ labels hevent, hevents, hcompat]

theorem Latched.step (hlatched : Latched labels s) (h : s.step label = some t) :
    Latched (labels ++ [label]) t := by
  cases fires_of_step h with
  | drainReinsert hstate hre hbuf => exact hlatched.quiet rfl rfl rfl ⟨_, hbuf⟩
  | drainNew hstate hre hin hbuf => exact hlatched.quiet rfl rfl rfl ⟨_, hbuf⟩
  | @drainLookahead txn rest hpred hstate hfsm hbuf hmain =>
      refine ⟨fun _ => ⟨_, txn, rest, trace_snoc_some _ labels rfl, hbuf⟩, nofun⟩
  | @lookaheadStep2 answer hpred hfsm hmain =>
      obtain ⟨earlier, txn, rest, hevents, hbuf⟩ := hlatched.step2 hfsm
      refine ⟨nofun, fun _ => ⟨earlier, txn, rest, ?_, hbuf⟩⟩
      rw [trace_snoc_some Label.checkEvent labels rfl, hevents, List.append_assoc]
      rfl
  | lookaheadStep3a | lookaheadStep3b => exact ⟨nofun, nofun⟩
  | _ => exact hlatched.quiet rfl rfl rfl ⟨[], (List.append_nil _).symm⟩

-- The record of a run: places, messages and count agree with what was accepted,
-- entered and removed.
structure Conserved (labels : List Label) (s : Pm) : Prop where
  placed : ∀ txn ∈ trace Label.acceptedTxn labels, ∃! place, txn ∈ holds labels s place
  once : ∀ place, (holds labels s place).Nodup
  known : ∀ place, ∀ txn ∈ holds labels s place, txn ∈ trace Label.acceptedTxn labels
  moved3a : ∀ txn pid t, s.step (.lookaheadStep3a txn pid) = some t →
    ∃ earlier, trace Label.checkEvent labels = earlier ++ [.asked txn, .answered true]
  moved3b : ∀ txn t, s.step (.lookaheadStep3b txn) = some t →
    ∃ earlier, trace Label.checkEvent labels = earlier ++ [.asked txn, .answered false]
  listed : ∀ pid, trace (Label.enteredAt pid) labels =
    trace (Label.removedFrom pid) labels ++ (s.puppetTxns pid).items
  emitted : ∀ pid, messages labels s pid =
    (trace (Label.enteredAt pid) labels).map fun txn => txn.message pid
  counted : s.numTxnScheduled.toNat = ∑ pid, (s.puppetTxns pid).items.length

-- What one step keeps.
structure Ledger (labels : List Label) (s : Pm) : Prop where
  inventory : inventory (holds labels s) = (trace Label.acceptedTxn labels : Multiset Submitted)
  serials : (trace Label.acceptedTxn labels).map Submitted.serial = List.range s.accepted
  latched : Latched labels s
  listed : ∀ pid, trace (Label.enteredAt pid) labels =
    trace (Label.removedFrom pid) labels ++ (s.puppetTxns pid).items
  emitted : ∀ pid, messages labels s pid =
    (trace (Label.enteredAt pid) labels).map fun txn => txn.message pid
  counted : s.numTxnScheduled.toNat = numActive s.puppetTxns

theorem Ledger.reset (isCompat : Bool) (main shadow : TxnFingerprint) :
    Ledger [] (Pm.reset isCompat main shadow) where
  inventory := inventory_eq_zero fun place => by cases place <;> rfl
  serials := rfl
  latched := ⟨nofun, nofun⟩
  listed pid := rfl
  emitted pid := rfl
  counted := by simp [Pm.reset, numActive]

theorem Ledger.step (hledger : Ledger labels s) (h : s.step label = some t) :
    Ledger (labels ++ [label]) t where
  inventory := by
    rw [inventory_holds_step h, hledger.inventory, trace_snoc, Multiset.coe_add]
    exact Multiset.coe_eq_coe.mpr List.perm_append_comm
  serials := serials_step hledger.serials h
  latched := hledger.latched.step h
  listed pid := entered_step pid [] (hledger.listed pid) h
  emitted pid := messages_step pid (hledger.emitted pid) h
  counted := counted_step hledger.counted h

theorem Ledger.conserved (hledger : Ledger labels s) : Conserved labels s where
  placed txn htxn := exists_unique_of_inventory hledger.inventory
    (List.Nodup.of_map _ (hledger.serials ▸ List.nodup_range)) htxn
  once := nodup_of_inventory hledger.inventory
    (List.Nodup.of_map _ (hledger.serials ▸ List.nodup_range))
  known place txn htxn := by
    have hmem := mem_inventory.mpr ⟨place, htxn⟩
    rwa [hledger.inventory] at hmem
  moved3a txn pid t h := by
    cases fires_of_step h with
    | lookaheadStep3a hpid hfsm hcompat hbuf =>
        obtain ⟨earlier, txn', rest, hevents, hhead⟩ := hledger.latched.step3 hfsm
        obtain ⟨rfl, -⟩ := List.cons.inj (hbuf.symm.trans hhead)
        exact ⟨earlier, hcompat ▸ hevents⟩
  moved3b txn t h := by
    cases fires_of_step h with
    | lookaheadStep3b hpred hfsm hcompat hbuf =>
        obtain ⟨earlier, txn', rest, hevents, hhead⟩ := hledger.latched.step3 hfsm
        obtain ⟨rfl, -⟩ := List.cons.inj (hbuf.symm.trans hhead)
        exact ⟨earlier, hcompat ▸ hevents⟩
  listed := hledger.listed
  emitted := hledger.emitted
  counted := hledger.counted

-- No transaction is lost or duplicated, in any run.
theorem nothing_lost (isCompat : Bool) (main shadow : TxnFingerprint) (labels : List Label) (s : Pm)
    (hrun : Run (Of step) (reset isCompat main shadow) labels s) : Conserved labels s :=
  (hrun.history Ledger (Ledger.reset isCompat main shadow) fun _ _ _ _ h hstep => h.step hstep).conserved

def writesZero : Transaction where
  txnId := 7
  auxData := 0
  numReadObjs := 0
  readObjs := fun _ => 0
  numWriteObjs := 1
  writeObjs := fun _ => 0

def writesOne : Transaction := { writesZero with txnId := 8, writeObjs := fun _ => 1 }

def resetState : Pm := reset false (hashTxn writesZero) (hashTxn writesZero)

-- From the put of a transaction to the buffer.
def arriveRun (x : Submitted) : List Label :=
  [.transactions_put x, .doHash, .hasherToInputQ, .drainInput]

-- From the buffer to a puppet.
def admitRun (x : Submitted) (pid : PuppetId) : List Label :=
  [.pipePuppetArbResult fun p => p = pid, .drainLookahead x.hash, .lookaheadStep2 true,
    .lookaheadStep3a x.hash pid, .mainFinish]

-- The transaction is checked, found incompatible and put back.
def rejectRun (x : Submitted) : List Label :=
  [.pipePuppetArbResult fun p => p = 1, .drainLookahead x.hash, .lookaheadStep2 false,
    .lookaheadStep3b x.hash, .drainInput]

def firstRun : List Label :=
  [.mainFinish, .shadowFinish] ++ arriveRun ⟨0, writesZero⟩ ++ admitRun ⟨0, writesZero⟩ 0

-- A second transaction that writes the same object is re-inserted and waits in the buffer.
def reinsertedRun : List Label :=
  firstRun ++ arriveRun ⟨1, writesZero⟩ ++ rejectRun ⟨1, writesZero⟩

theorem nothing_lost_reinserted :
    ∃ s, Run (Of step) resetState reinsertedRun s ∧ Conserved reinsertedRun s ∧
      s.lookaheadBuffer.items = [Submitted.hash ⟨1, writesZero⟩] := by
  have hexec : ((exec step resetState reinsertedRun).any fun s =>
      s.lookaheadBuffer.items = [Submitted.hash ⟨1, writesZero⟩]) = true := by
    decide +kernel
  obtain ⟨s, hs, hbuf⟩ := (Option.any_eq_true _ _).mp hexec
  exact ⟨s, run_of_exec hs, nothing_lost _ _ _ _ _ (run_of_exec hs), of_decide_eq_true hbuf⟩

end Puppetmaster.Hardware.Pm
