import Puppetmaster.Hardware.Connectal.Lines
import Puppetmaster.Hardware.Pm.Safety
import Puppetmaster.Library.Serial

namespace Puppetmaster.Hardware

open Library Library.Transition Runner ClosedLoop

-- A transaction reads objects in its live slots and writes objects in those for writing.
def Transaction.Declares {V L : Type*} (txn : Transaction) (access : Access ObjectId V L) : Prop :=
  access.Within txn.reads txn.writes

theorem Transaction.Declares.independent {V L : Type*} {a b : Transaction}
    {x y : ℕ × Access ObjectId V L} (ha : a.Declares x.2) (hb : b.Declares y.2) (hne : x.1 ≠ y.1)
    (h : ¬ a.Conflict b) : Independent Store.perform x y := by
  refine independent_within ha hb hne (fun obj hobj => ⟨fun hobj' => ?_, fun hobj' => ?_⟩)
    fun obj hobj hobj' => ?_
  · exact h ⟨obj, .inr (.inl ⟨hobj, hobj'⟩)⟩
  · exact h ⟨obj, .inr (.inr ⟨hobj, hobj'⟩)⟩
  · exact h ⟨obj, .inl ⟨hobj, hobj'⟩⟩

theorem Pm.puppetTxns_step {s t : Pm} {label : Pm.Label} (h : s.step label = some t)
    (hadmits : label.admits = false) (hremoved : label.removedTxn = none) :
    t.puppetTxns = s.puppetTxns := by
  cases Pm.fires_of_step h with
  | lookaheadStep3a => cases hadmits
  | clearWorkDone => cases hremoved
  | _ => rfl

-- A transaction is admitted beside transactions that it does not conflict with.
theorem Pm.admitted_apart {s t : Pm} {txn : Hashed} {pid : PuppetId} (hsafe : Pm.Safe s)
    (h : s.step (.lookaheadStep3a txn pid) = some t) :
    (∀ p, ∀ other ∈ s.active p, Pm.Unrelated other txn ∧ other ∈ t.active p) ∧ txn ∈ t.active pid := by
  cases Pm.fires_of_step h with
  | lookaheadStep3a hpid hfsm hcompat hbuf hmain hshadow hsched htxns =>
      obtain ⟨txn', rest, hhead, hunrelated⟩ := hsafe.admitted hfsm hcompat
      obtain ⟨rfl, -⟩ := List.cons.inj (hbuf.symm.trans hhead)
      refine ⟨fun p other hother => ⟨hunrelated p other hother, ?_⟩, ?_⟩
      · by_cases hp : p = pid
        · subst hp
          rw [Pm.active_update_self rfl, htxns]
          exact List.mem_append_left _ hother
        · rwa [Pm.active_update_other rfl hp]
      · rw [Pm.active_update_self rfl, htxns]
        exact List.mem_append_right _ List.mem_cons_self

-- The oldest transaction of the list named in the message leaves it.
theorem Pm.cleared_active {s t : Pm} {txn : Hashed} {pid : PuppetId}
    (h : s.step (.clearWorkDone txn pid) = some t) :
    ∃ done, s.workDoneQ.first = some done ∧ (s.puppetTxns done.puppetId).first = some txn ∧
      ∀ p, ∀ other ∈ s.active p, other ∈ t.active p ∨ other = txn := by
  cases Pm.fires_of_step h with
  | @clearWorkDone done _ qw txns hdone htxns =>
      refine ⟨done, Fifo.first_eq_some.mpr ⟨_, hdone⟩, Fifo.first_eq_some.mpr ⟨_, htxns⟩,
        fun p other hother => ?_⟩
      by_cases hp : p = done.puppetId
      · subst hp
        rw [Pm.active, htxns] at hother
        rw [Pm.active_update_self rfl]
        exact (List.mem_cons.mp hother).symm
      · left
        rwa [Pm.active_update_other rfl hp]

def scheduledId (l : HwLine) : Option TransactionId :=
  if l.event.kind = .SCHED_READY then some l.txnId else none

def scheduledIds (log : List HwLine) : List TransactionId := trace scheduledId log

def Mentions (kind : Wrapper.PmlogKind) (log : List HwLine) (txnId : TransactionId) : Prop :=
  ∃ l ∈ log, l.txnId = txnId ∧ l.event.kind = kind

-- The transaction scheduled as number `k` has a line of the kind.
def Reached (kind : Wrapper.PmlogKind) (log : List HwLine) (k : ℕ) : Prop :=
  ∃ txnId, (scheduledIds log)[k]? = some txnId ∧ Mentions kind log txnId

instance (kind : Wrapper.PmlogKind) (log : List HwLine) (txnId : TransactionId) :
    Decidable (Mentions kind log txnId) := inferInstanceAs (Decidable (∃ l ∈ log, _))

instance (kind : Wrapper.PmlogKind) (log : List HwLine) (k : ℕ) : Decidable (Reached kind log k) :=
  match h : (scheduledIds log)[k]? with
  | none => isFalse fun ⟨_, hk, _⟩ => nomatch h.symm.trans hk
  | some txnId => decidable_of_iff (Mentions kind log txnId)
      ⟨fun hm => ⟨txnId, h, hm⟩, fun ⟨_, hk, hm⟩ => Option.some.inj (h.symm.trans hk) ▸ hm⟩

theorem Mentions.mono {kind : Wrapper.PmlogKind} {log new : List HwLine} {txnId : TransactionId}
    (h : Mentions kind log txnId) : Mentions kind (log ++ new) txnId := by
  obtain ⟨l, hl, hboth⟩ := h
  exact ⟨l, List.mem_append_left _ hl, hboth⟩

theorem Reached.mono {kind : Wrapper.PmlogKind} {log new : List HwLine} {k : ℕ}
    (h : Reached kind log k) : Reached kind (log ++ new) k := by
  obtain ⟨txnId, hk, hmentions⟩ := h
  refine ⟨txnId, ?_, hmentions.mono⟩
  rw [scheduledIds, trace, List.filterMap_append]
  exact (List.getElem?_append_left (List.getElem?_eq_some_iff.mp hk).1).trans hk

namespace Connectal

variable {n : PuppetCount} {c d : Connectal} {label : Label} {labels : List Label} {order : List Hashed}

def Label.admitted : Label → Option Hashed
  | .pm (.lookaheadStep3a txn _) => some txn
  | _ => none

-- Exact answers, and at a refresh a shadow that holds every active transaction.
def Label.covered (c : Connectal) : Label → Prop
  | .pm label => Pm.Covered c.pm label
  | _ => True

instance (c : Connectal) : (label : Label) → Decidable (label.covered c)
  | .pm label => inferInstanceAs (Decidable (Pm.Covered c.pm label))
  | .fetchConfig _ | .setConfig _ | .addTransaction _ | .triggerDriver | .reportWorkDone _
  | .transactionScheduled _ | .populate_txn _ | .transactions _ | .scheduled _ | .workDone _
  | .executor _ | .endCycle _ => instDecidableTrue

abbrev Covering (n : PuppetCount) : Connectal → Label → Connectal → Prop :=
  Meeting step fun c label => label.keeps n ∧ label.covered c

-- The transactions scheduled so far, in this order: each is active or removed, and all that
-- conflict with a later one are removed.
structure Settled (order : List Hashed) (c : Connectal) : Prop where
  printed : scheduledIds c.lines = order.map fun txn => txn.fingerprint.txnId
  entered : ∀ txn ∈ order, (∃ pid, txn ∈ c.pm.active pid) ∨
    Mentions .CLEANUP c.lines txn.fingerprint.txnId
  settled : order.Pairwise fun x y => x.source.txn.Conflict y.source.txn →
    Mentions .CLEANUP c.lines x.fingerprint.txnId

theorem Settled.rest {new : List HwLine} (h : Settled order c) (hlines : d.lines = c.lines ++ new)
    (hnone : scheduledIds new = []) (hactive : d.pm.puppetTxns = c.pm.puppetTxns) : Settled order d := by
  refine ⟨?_, fun txn htxn => ?_, ?_⟩
  · rw [hlines, scheduledIds, trace, List.filterMap_append, ← trace, ← trace, ← scheduledIds, ← scheduledIds,
      hnone, List.append_nil]
    exact h.printed
  · rcases h.entered txn htxn with ⟨pid, hpid⟩ | hremoved
    · refine .inl ⟨pid, ?_⟩
      rw [Pm.active, hactive]
      exact hpid
    · exact .inr (hlines ▸ hremoved.mono)
  · exact h.settled.imp fun hxy hconflict => hlines ▸ (hxy hconflict).mono

theorem Settled.step3a (h : Settled order c) (hsafe : Pm.Safe c.pm) {txn : Hashed} {pid : PuppetId}
    (hpm : c.pm.step (.lookaheadStep3a txn pid) = some d.pm) {cycle : Timestamp}
    (hlines : d.lines = c.lines ++ [⟨cycle, txn.fingerprint.txnId, .scheduled pid⟩]) :
    Settled (order ++ [txn]) d := by
  obtain ⟨hactive, hnew⟩ := Pm.admitted_apart hsafe hpm
  refine ⟨?_, fun x hx => ?_, ?_⟩
  · have hline : scheduledIds [⟨cycle, txn.fingerprint.txnId, .scheduled pid⟩] =
        [txn.fingerprint.txnId] := rfl
    rw [hlines, scheduledIds, trace, List.filterMap_append, ← trace, ← trace, ← scheduledIds,
      ← scheduledIds, hline, h.printed, List.map_append, List.map_cons, List.map_nil]
  · rcases List.mem_append.mp hx with hx | hx
    · rcases h.entered x hx with ⟨p, hp⟩ | hremoved
      · exact .inl ⟨p, (hactive p x hp).2⟩
      · exact .inr (hlines ▸ hremoved.mono)
    · obtain rfl := List.mem_singleton.mp hx
      exact .inl ⟨pid, hnew⟩
  · refine List.pairwise_append.mpr ⟨?_, List.pairwise_singleton _ _, fun x hx y hy hconflict => ?_⟩
    · exact h.settled.imp fun hxy hconflict => hlines ▸ (hxy hconflict).mono
    · obtain rfl := List.mem_singleton.mp hy
      rcases h.entered x hx with ⟨p, hp⟩ | hremoved
      · exact absurd hconflict (hactive p x hp).1
      · exact hlines ▸ hremoved.mono

theorem Settled.clearWorkDone (h : Settled order c) (hmatched : c.loop.Matched) {txn : Hashed} {pid : PuppetId}
    (hpm : c.pm.step (.clearWorkDone txn pid) = some d.pm) {cycle : Timestamp}
    (hprinted : d.printed = c.printed ++ c.pm.output cycle (.clearWorkDone txn pid)) : Settled order d := by
  obtain ⟨done, hdone, hfirst, hactive⟩ := Pm.cleared_active hpm
  have hid : done.txnId = txn.fingerprint.txnId := by
    have hmatches := hmatched.workDoneMatches hdone
    rw [Pm.workDoneMatches] at hmatches
    rw [show c.loop.pm = c.pm from rfl, hfirst] at hmatches
    exact beq_iff_eq.mp hmatches
  have hlines : d.lines = c.lines ++ [⟨cycle, txn.fingerprint.txnId, .removed⟩] := by
    rw [Pm.output, hdone, Option.toList_some, List.map_cons, List.map_nil, hid] at hprinted
    exact lines_line hprinted
  have hremoved : Mentions .CLEANUP d.lines txn.fingerprint.txnId := by
    rw [hlines]
    exact ⟨_, List.mem_append_right _ List.mem_cons_self, rfl, rfl⟩
  refine ⟨?_, fun x hx => ?_, ?_⟩
  · have hline : scheduledIds [⟨cycle, txn.fingerprint.txnId, .removed⟩] = [] := rfl
    rw [hlines, scheduledIds, trace, List.filterMap_append, ← trace, ← trace, ← scheduledIds,
      ← scheduledIds, hline, List.append_nil, h.printed]
  · rcases h.entered x hx with ⟨p, hp⟩ | hold
    · rcases hactive p x hp with hp | rfl
      · exact .inl ⟨p, hp⟩
      · exact .inr hremoved
    · exact .inr (hlines ▸ hold.mono)
  · exact h.settled.imp fun hxy hconflict => hlines ▸ (hxy hconflict).mono

theorem scheduledIds_output {s : FakeExecutor} {l : FakeExecutor.Label} :
    scheduledIds ((s.output l).filterMap HwOutput.txnLine) = [] := by
  cases l with
  | startWork i =>
      cases hfirst : (s.puppetQ i).first with
      | none => simp [FakeExecutor.output, hfirst, scheduledIds, trace]
      | some msg =>
          rw [FakeExecutor.output, hfirst]
          rfl
  | _ => rfl

theorem Settled.pmRule (h : Settled order c) (hsafe : Pm.Safe c.pm) (hmatched : c.loop.Matched)
    {l : Pm.Label} (hpm : c.pm.step l = some d.pm) (hprinted : d.printed = c.printed ++ c.pm.output c.cycle l) :
    Settled (order ++ (Label.admitted (.pm l)).toList) d := by
  by_cases hadmits : l.admits = true
  · cases l with
    | lookaheadStep3a txn pid => exact h.step3a hsafe hpm (lines_line hprinted)
    | _ => cases hadmits
  · have hnone : Label.admitted (.pm l) = none := by
      cases l <;> first | rfl | exact absurd rfl hadmits
    rw [hnone, Option.toList_none, List.append_nil]
    by_cases hremoved : l.removedTxn = none
    · have hadmits := Bool.eq_false_iff.mpr hadmits
      refine h.rest (lines_append hprinted) ?_ (Pm.puppetTxns_step hpm hadmits hremoved)
      rw [Pm.output_rule hadmits hremoved]
      rfl
    · cases l with
      | clearWorkDone txn pid => exact h.clearWorkDone hmatched hpm hprinted
      | _ => exact absurd rfl hremoved

theorem Settled.step (h : Settled order c) (hsim : Simulated n c) (hsafe : Pm.Safe c.pm)
    (hstep : c.step label = some d) : Settled (order ++ label.admitted.toList) d := by
  have hrest : ∀ {e : Connectal}, e.lines = c.lines → e.pm.puppetTxns = c.pm.puppetTxns →
      Settled (order ++ []) e := by
    intro e hlines hactive
    rw [List.append_nil]
    exact h.rest (hlines.trans (List.append_nil _).symm) rfl hactive
  cases hsim.moves_of_step hstep with
  | submitted =>
      rw [Label.admitted, Option.toList_none, List.append_nil]
      · exact h.rest (lines_line rfl) rfl rfl
      · simp
  | transactions hout hpm => exact hrest rfl (Pm.puppetTxns_step hpm rfl rfl)
  | scheduled hpm hexec => exact hrest rfl (Pm.puppetTxns_step hpm rfl rfl)
  | workDone hexec hpm => exact hrest rfl (Pm.puppetTxns_step hpm rfl rfl)
  | pm hrule hadmitted hpm => exact h.pmRule hsafe hsim.matched hpm rfl
  | executor hrule hexec =>
      rw [Label.admitted, Option.toList_none, List.append_nil]
      · exact h.rest (lines_append rfl) scheduledIds_output rfl
      · simp
  | _ => exact hrest rfl rfl

theorem safe_step (hsafe : Pm.Safe c.pm) (hsim : Simulated n c) (hcovered : label.covered c)
    (hstep : c.step label = some d) : Pm.Safe d.pm := by
  cases hsim.moves_of_step hstep with
  | @setConfig cfg =>
      have hset : c.pm.step (.setNumPuppets (cfg.numPuppets.setWidth 5)) = some (c.setConfig cfg).pm := rfl
      exact hsafe.step hset nofun nofun
  | transactions hout hpm => exact hsafe.step hpm nofun nofun
  | scheduled hpm hexec => exact hsafe.step hpm nofun nofun
  | workDone hexec hpm => exact hsafe.step hpm nofun nofun
  | pm hrule hadmitted hpm => exact hsafe.step hpm hcovered.1 hcovered.2
  | _ => exact hsafe

theorem lines_of_step (h : Simulated n c) (hstep : c.step label = some d) :
    d.lines = c.lines ∨ ∃ l, d.lines = c.lines ++ [l] := by
  have hshort : ∀ {out : List HwOutput}, out.length ≤ 1 → d.printed = c.printed ++ out →
      d.lines = c.lines ∨ ∃ l, d.lines = c.lines ++ [l] := by
    intro out hout hprinted
    have hlines := lines_append hprinted
    have hlength := (List.length_filterMap_le HwOutput.txnLine out).trans hout
    rcases Nat.le_one_iff_eq_zero_or_eq_one.mp hlength with hzero | hone
    · rw [List.length_eq_zero_iff.mp hzero, List.append_nil] at hlines
      exact .inl hlines
    · obtain ⟨l, hl⟩ := List.length_eq_one_iff.mp hone
      exact .inr ⟨l, hl ▸ hlines⟩
  cases h.moves_of_step hstep with
  | submitted => exact .inr ⟨_, lines_line rfl⟩
  | @pm l pm hrule hadmitted hpm =>
      refine hshort ?_ rfl
      cases l with
      | clearWorkDone txn pid =>
          rw [Pm.output, List.length_map]
          cases c.pm.workDoneQ.first <;> simp
      | _ => simp [Pm.output]
  | @executor l executor hrule hexec =>
      refine hshort ?_ rfl
      cases l with
      | startWork i =>
          rw [FakeExecutor.output, List.length_map]
          cases (c.fakeExecutor.puppetQ i).first <;> simp
      | _ => simp [FakeExecutor.output]
  | _ => exact .inl rfl

theorem mentions_iff {kind : Wrapper.PmlogKind} {txnId : TransactionId} :
    Mentions kind c.lines txnId ↔ ∃ e ∈ c.told txnId, e.kind = kind := by
  rw [told]
  constructor
  · rintro ⟨l, hl, hid, hkind⟩
    exact ⟨l.event, List.mem_map_of_mem (List.mem_filter.mpr ⟨hl, decide_eq_true hid⟩), hkind⟩
  · rintro ⟨e, he, hkind⟩
    obtain ⟨l, hl, rfl⟩ := List.mem_map.mp he
    obtain ⟨hl, hid⟩ := List.mem_filter.mp hl
    exact ⟨l, hl, of_decide_eq_true hid, hkind⟩

-- A transaction that is removed has all its lines.
theorem told_of_removed {txnId : TransactionId} (htold : ∃ pid, c.told txnId <+: course pid)
    (hremoved : Mentions .CLEANUP c.lines txnId) : ∃ pid, c.told txnId = course pid := by
  obtain ⟨pid, hpre⟩ := htold
  obtain ⟨e, he, hkind⟩ := mentions_iff.mp hremoved
  have hfull : ∀ l, l <+: course pid → (∃ e ∈ l, e.kind = .CLEANUP) → l = course pid := by
    intro l hl
    rw [List.prefix_iff_eq_take] at hl
    rcases hlength : l.length with _ | _ | _ | _ | _ | k <;> rw [hlength] at hl <;> rw [hl] <;>
      simp [course, HwEvent.kind]
  exact ⟨pid, hfull _ hpre ⟨e, he, hkind⟩⟩

-- The transactions scheduled as numbers `i` and `j` conflict.
def Conflicting (order : List Hashed) (i j : ℕ) : Prop :=
  ∃ x y, order[i]? = some x ∧ order[j]? = some y ∧ x.source.txn.Conflict y.source.txn

section

variable {isCompat : Bool} {main shadow : TxnFingerprint} {driver executor : TIndex} {cfg : TopConfig}

theorem Settled.run (hcfg : Simulates n cfg)
    (hrun : Run (Covering n) (Connectal.configured isCompat main shadow driver executor cfg) labels c) :
    Simulated n c ∧ Settled (trace Label.admitted labels) c := by
  have hall := hrun.history
    (fun labels c => Simulated n c ∧ Pm.Safe c.pm ∧ Settled (trace Label.admitted labels) c)
    ⟨Simulated.configured isCompat main shadow driver executor hcfg, ?_, rfl, nofun, .nil⟩
    fun labels c label d h hstep => ?_
  · exact ⟨hall.1, hall.2.2⟩
  · have hset : (Pm.reset isCompat main shadow).step (.setNumPuppets (cfg.numPuppets.setWidth 5)) =
        some (configured isCompat main shadow driver executor cfg).pm := rfl
    exact (Pm.Safe.reset isCompat main shadow).step hset nofun nofun
  · obtain ⟨hsim, hsafe, hsettled⟩ := h
    rw [trace_snoc]
    exact ⟨hsim.step hstep.2.1 hstep.1, safe_step hsafe hsim hstep.2.2 hstep.1,
      hsettled.step hsim hsafe hstep.1⟩

-- Before a transaction is scheduled, each one that was scheduled before it and conflicts with it
-- has all its lines.
theorem finished_before_scheduled (hcfg : Simulates n cfg)
    (hrun : Run (Covering n) (Connectal.configured isCompat main shadow driver executor cfg) labels c)
    (hdistinct : (trace Label.added labels).Nodup) {i j : ℕ} (hlt : i < j)
    (hconflict : Conflicting (trace Label.admitted labels) i j) {front : List HwLine}
    (hfront : front <+: c.lines) (hscheduled : j < (scheduledIds front).length) :
    Reached .DONE front i := by
  have hwithin := hrun.within (Simulated n) (Simulated.configured isCompat main shadow driver executor hcfg)
    fun _ _ _ h hstep => h.step hstep.2.1 hstep.1
  obtain ⟨earlier, middle, hearlier, hmiddle, rfl⟩ :=
    hwithin.reaches_prefix Connectal.lines rfl (fun _ _ _ h => lines_of_step h.1 h.2.1) hfront
  replace hmiddle := hmiddle.mono fun _ _ _ h => h.2
  obtain ⟨-, hsettled⟩ := Settled.run hcfg hmiddle
  have horder : trace Label.admitted earlier <+: trace Label.admitted labels := hearlier.filterMap _
  obtain ⟨x, y, hx, hy, hconflict⟩ := hconflict
  have hjlt : j < (trace Label.admitted earlier).length := by
    rwa [hsettled.printed, List.length_map] at hscheduled
  have hknown : ∀ k ≤ j, (trace Label.admitted earlier)[k]? = (trace Label.admitted labels)[k]? := by
    intro k hk
    have hle := horder.length_le
    rw [List.getElem?_eq_getElem (by omega), List.getElem?_eq_getElem (by omega), horder.getElem (by omega)]
  rw [← hknown i hlt.le] at hx
  rw [← hknown j le_rfl] at hy
  have hremoved : Mentions .CLEANUP middle.lines x.fingerprint.txnId := by
    obtain ⟨hilt, hxi⟩ := List.getElem?_eq_some_iff.mp hx
    obtain ⟨hjlt, hyj⟩ := List.getElem?_eq_some_iff.mp hy
    have hpair := List.pairwise_iff_getElem.mp hsettled.settled i j hilt hjlt hlt
    rw [hxi, hyj] at hpair
    exact hpair hconflict
  have hdistinct' : (trace Label.added earlier).Nodup :=
    hdistinct.sublist (hearlier.filterMap _).sublist
  have hkeeps : Run (Keeping n) _ earlier middle := hmiddle.mono fun _ _ _ h => ⟨h.1, h.2.1⟩
  obtain ⟨pid, htold⟩ := told_of_removed
    (told_along_course hcfg hkeeps hdistinct' x.fingerprint.txnId) hremoved
  refine ⟨x.fingerprint.txnId, ?_, ?_⟩
  · rw [hsettled.printed, List.getElem?_map, hx]
    rfl
  · rw [mentions_iff, htold]
    exact ⟨.done pid, by simp [course], rfl⟩

-- Whatever the puppets do to the objects between the lines that their transactions execute and
-- are done amounts to one transaction after the other in the order of the scheduled lines.
theorem serializable_in_schedule_order {V L : Type*} (hcfg : Simulates n cfg)
    (hrun : Run (Covering n) (Connectal.configured isCompat main shadow driver executor cfg) labels c)
    (hdistinct : (trace Label.added labels).Nodup) {steps : List (HwLine ⊕ ℕ × Access ObjectId V L)}
    (hsteps : InWindows Prod.fst (Reached .WORK_RECV) (Reached .DONE) c.lines steps)
    (hdeclared : ∀ step ∈ actionsOf steps, ∃ txn, (trace Label.admitted labels)[step.1]? = some txn ∧
      txn.source.txn.Declares step.2) (store : Store ObjectId V L) :
    scheduledIds c.lines = (trace Label.admitted labels).map (fun txn => txn.fingerprint.txnId) ∧
      (actionsOf steps).foldl Store.perform store =
        (inTurn Prod.fst (trace Label.admitted labels).length (actionsOf steps)).foldl Store.perform store := by
  have hpairs : (actionsOf steps).Pairwise fun x y =>
      y.1 < x.1 → ¬ Conflicting (trace Label.admitted labels) y.1 x.1 :=
    hsteps.pairwise (fun _ _ _ h => h.mono) fun front hfront i j hlt hconflict hstart => by
      obtain ⟨txnId, hj, -⟩ := hstart
      exact finished_before_scheduled hcfg hrun hdistinct hlt hconflict hfront
        (List.getElem?_eq_some_iff.mp hj).1
  refine ⟨(Settled.run hcfg hrun).2.printed, foldl_inTurn ?_ (fun step hstep => ?_) store⟩
  · refine hpairs.imp_of_mem fun {x y} hx hy hindependent hlt => ?_
    obtain ⟨a, ha, hdeclares⟩ := hdeclared x hx
    obtain ⟨b, hb, hdeclares'⟩ := hdeclared y hy
    exact hdeclares.independent hdeclares' hlt.ne'
      fun hconflict => hindependent hlt ⟨b, a, hb, ha, hconflict.symm⟩
  · obtain ⟨txn, htxn, -⟩ := hdeclared step hstep
    exact (List.getElem?_eq_some_iff.mp htxn).1

end

-- A third transaction conflicts with the first one and is admitted after two refreshes.

def writesZeroAgain : Transaction := { Pm.writesZero with txnId := 9 }

def refreshRun (txn : Submitted) : List Label :=
  (Pm.rejectRun txn ++ Pm.rejectRun txn ++ Pm.walkRun ++ Pm.refreshRun).map .pm

def conflictRun : List Label :=
  overlapRun ++ [.pm .shadowUpdateNew, .pm .shadowFinish, .pm .shadowUpdateNew, .pm .shadowFinish,
    .addTransaction writesZeroAgain] ++ deliverRun ⟨2, writesZeroAgain⟩ ++
    refreshRun ⟨2, writesZeroAgain⟩ ++ refreshRun ⟨2, writesZeroAgain⟩ ++ scheduleRun ⟨2, writesZeroAgain⟩ 0

def conflictLines : List HwLine :=
  overlapLines ++ [⟨5, 9, .submitted⟩, ⟨6, 9, .scheduled 0⟩, ⟨6, 9, .executing 0⟩]

def conflictOrder : List Submitted := [⟨0, Pm.writesZero⟩, ⟨1, Pm.writesOne⟩, ⟨2, writesZeroAgain⟩]

theorem conflictRun_reaches :
    ∃ c, Run (Covering 8) configuredState conflictRun c ∧ c.lines = conflictLines := by
  have hexec : (exec (guarded step fun c label => label.keeps 8 ∧ label.covered c) configuredState
      conflictRun).any (fun c => c.lines = conflictLines) = true := by
    decide +kernel
  obtain ⟨c, hc, hlines⟩ := (Option.any_eq_true _ _).mp hexec
  exact ⟨c, run_meeting_of_exec hc, of_decide_eq_true hlines⟩

-- The second transaction writes before the first one does.
def conflictSteps : List (HwLine ⊕ ℕ × Access ObjectId ℕ ℕ) :=
  (conflictLines.take 6).map .inl ++ [.inr (1, .write 1 id), .inr (0, .write 0 id)] ++
    (conflictLines.drop 6).map .inl ++ [.inr (2, .write 0 id)]

theorem conflictSteps_in_windows :
    InWindows Prod.fst (Reached .WORK_RECV) (Reached .DONE) conflictLines conflictSteps := by
  have hfront : InWindows Prod.fst (Reached .WORK_RECV) (Reached .DONE) (conflictLines.take 6)
      ((conflictLines.take 6).map (.inl : HwLine → HwLine ⊕ ℕ × Access ObjectId ℕ ℕ)) :=
    InWindows.nil.entries (conflictLines.take 6)
  have hsecond := hfront.act (a := (1, .write 1 id)) (by decide) (by decide)
  have hfirst := hsecond.act (a := (0, .write 0 id)) (by decide) (by decide)
  exact (hfirst.entries (conflictLines.drop 6)).act (a := (2, .write 0 id)) (by decide)
    (by decide)

theorem declares_write {txn : Transaction} {obj : ObjectId} (hobj : obj ∈ txn.writes) :
    txn.Declares (.write obj id : Access ObjectId ℕ ℕ) := hobj

theorem serializable_in_schedule_order_conflict :
    ∃ c, Run (Covering 8) configuredState conflictRun c ∧
      InWindows Prod.fst (Reached .WORK_RECV) (Reached .DONE) c.lines conflictSteps ∧
      ∀ store, (actionsOf conflictSteps).foldl Store.perform store =
        (inTurn Prod.fst 3 (actionsOf conflictSteps)).foldl Store.perform store := by
  obtain ⟨c, hrun, hlines⟩ := conflictRun_reaches
  have hsteps : InWindows Prod.fst (Reached .WORK_RECV) (Reached .DONE) c.lines conflictSteps := by
    rw [hlines]
    exact conflictSteps_in_windows
  have hadmitted : trace Label.admitted conflictRun = conflictOrder.map Submitted.hash := rfl
  refine ⟨c, hrun, hsteps, fun store => (serializable_in_schedule_order simulates_simulatedConfig hrun
    (by decide) hsteps (fun step hstep => ?_) store).2⟩
  have hactions : actionsOf conflictSteps = [(1, .write 1 id), (0, .write 0 id), (2, .write 0 id)] := rfl
  rw [hadmitted]
  simp only [hactions, List.mem_cons, List.not_mem_nil, or_false] at hstep
  rcases hstep with rfl | rfl | rfl
  · exact ⟨_, rfl, declares_write ⟨0, by decide, rfl⟩⟩
  · exact ⟨_, rfl, declares_write ⟨0, by decide, rfl⟩⟩
  · exact ⟨_, rfl, declares_write ⟨0, by decide, rfl⟩⟩

end Connectal

end Puppetmaster.Hardware
