import Puppetmaster.Wrapper.Scheduler.Serial

namespace Puppetmaster.Wrapper

open Library Library.Transition

-- A transaction reads objects that it names and writes objects that it names as written.
def Txn.Declares {V L : Type*} (txn : Txn) (access : Access ObjId V L) : Prop :=
  access.Within (Set.range txn.read) (Set.range txn.write)

-- Transactions that do not conflict touch no object in common that either writes.
theorem Txn.Declares.independent {V L : Type*} {a b : Txn} {x y : ℕ × Access ObjId V L}
    (ha : a.Declares x.2) (hb : b.Declares y.2) (hne : x.1 ≠ y.1)
    (h : check_txn_conflict a b = false) : Independent Store.perform x y := by
  have hno := mt (check_txn_conflict_iff a b).mpr (by simp [h])
  refine independent_within ha hb hne (fun obj hobj => ⟨fun hobj' => ?_, fun hobj' => ?_⟩)
    fun obj hobj hobj' => ?_
  · exact hno ⟨obj, .inr (.inl ⟨hobj, hobj'⟩)⟩
  · exact hno ⟨obj, .inr (.inr ⟨hobj, hobj'⟩)⟩
  · exact hno ⟨obj, .inl ⟨hobj, hobj'⟩⟩

namespace Scheduler

variable {cfg : Config} {s t : Scheduler} {labels : List Label} {jobs : ℕ → Job} {handles : ℕ → Handle}

theorem log_of_step {label : Label} (h : s.step cfg label = some t) :
    t.log = s.log ∨ ∃ call, t.log = s.log ++ [call] := by
  cases fires_of_step h with
  | logCleanup | logReady | logRecv | logDone | submit => exact .inr ⟨_, rfl⟩
  | _ => exact .inl rfl

-- What a log says holds of every prefix, since the prefix is the log of an earlier state.
theorem earlier_of_prefix (hrun : Run (Of (Scheduler.step cfg)) (init jobs handles) labels s)
    {front : List LogCall} (hfront : front <+: s.log) :
    ∃ earlier middle, submissions earlier <+: submissions labels ∧
      Run (Of (Scheduler.step cfg)) (init jobs handles) earlier middle ∧ middle.log = front := by
  obtain ⟨earlier, middle, hearlier, hmiddle⟩ :=
    hrun.reaches_prefix Scheduler.log rfl (fun _ _ _ => log_of_step) hfront
  exact ⟨earlier, middle, hearlier.filterMap _, hmiddle⟩

theorem Serial.lt_of_ready {txns : List Txn} {k n : ℕ} (h : Serial cfg txns k s)
    (hready : Entered .SCHED_READY s.log n) : n < k := by
  obtain ⟨call, hcall, rfl, hkind⟩ := hready
  have hmem : call ∈ ((numbered txns).take k).map (readyCall cfg) := by
    rw [← h.ready]
    exact List.mem_append_left _ (List.mem_filter.mpr ⟨hcall, by simpa using hkind⟩)
  obtain ⟨job, hjob, rfl⟩ := List.mem_map.mp hmem
  exact (mem_take_numbered.mp hjob).1

def Conflicting (txns : List Txn) (i j : ℕ) : Prop :=
  ∃ a b, txns[i]? = some a ∧ txns[j]? = some b ∧ check_txn_conflict a b = true

theorem cleaned_before_ready (hrun : Run (Of (Scheduler.step cfg)) (init jobs handles) labels s)
    {i j : ℕ} (hlt : i < j) (hconflict : Conflicting (submissions labels) i j)
    {front : List LogCall} (hfront : front <+: s.log) (hready : Entered .SCHED_READY front j) :
    Entered .CLEANUP front i := by
  obtain ⟨a, b, ha, hb, hconflict⟩ := hconflict
  obtain ⟨earlier, middle, hearlier, hmiddle, rfl⟩ := earlier_of_prefix hrun hfront
  obtain ⟨k, h⟩ := Serial.run hmiddle
  have hj : j < k := h.lt_of_ready hready
  have hknown : ∀ n < k, (submissions earlier)[n]? = (submissions labels)[n]? := by
    intro n hn
    have hle := h.started_le
    rw [List.getElem?_eq_getElem (by omega), List.getElem?_eq_getElem (by have := hearlier.length_le; omega),
      hearlier.getElem (by omega)]
  refine h.settled ⟨i, a⟩ ?_ ⟨j, b⟩ ?_ hlt (by simp [Compatible, hconflict])
  · exact mem_take_numbered.mpr ⟨hlt.trans hj, by rw [hknown i (hlt.trans hj), ha]⟩
  · exact mem_take_numbered.mpr ⟨hj, by rw [hknown j hj, hb]⟩

-- The entries of a transaction come in the order of pmlog.h.
theorem entered_of_entered (hrun : Run (Of (Scheduler.step cfg)) (init jobs handles) labels s)
    {m n : ℕ} (hmn : m ≤ n) {kind kind' : PmlogKind} (hkind : stages[m]? = some kind)
    (hkind' : stages[n]? = some kind') {i : ℕ} {front : List LogCall} (hfront : front <+: s.log)
    (h : Entered kind' front i) : Entered kind front i := by
  obtain ⟨earlier, middle, -, hmiddle, rfl⟩ := earlier_of_prefix hrun hfront
  rw [entered_iff] at h ⊢
  have hpre : middle.logged i <+: stages := Staged.history_prefix (Logged.run hmiddle) i
  obtain ⟨l, hl⟩ := List.getElem_of_mem h
  obtain ⟨hlt, hget⟩ := hl
  have hnodup : stages.Nodup := by decide
  have hsame : l = n := by
    have hboth : stages[l]? = stages[n]? := by
      rw [hkind', ← hget, hpre.getElem hlt, List.getElem?_eq_getElem]
    exact (List.getElem?_inj (hlt.trans_le hpre.length_le) hnodup).mp hboth
  have hm : m < (middle.logged i).length := by omega
  have heq : (middle.logged i)[m] = kind := by
    rw [hpre.getElem hm]
    exact Option.some.inj ((List.getElem?_eq_getElem _).symm.trans hkind)
  exact heq ▸ List.getElem_mem hm

theorem stage_of_kind (kind : PmlogKind) : ∃ m : ℕ, m ≤ 4 ∧ stages[m]? = some kind := by
  cases kind with
  | SUBMIT => exact ⟨0, by omega, rfl⟩
  | SCHED_READY => exact ⟨1, by omega, rfl⟩
  | WORK_RECV => exact ⟨2, by omega, rfl⟩
  | DONE => exact ⟨3, by omega, rfl⟩
  | CLEANUP => exact ⟨4, by omega, rfl⟩

-- Before a transaction is logged as scheduled, each earlier one that it conflicts with has
-- all its entries in the log.
theorem conflicting_in_submission_order
    (hrun : Run (Of (Scheduler.step cfg)) (init jobs handles) labels s) {i j : ℕ} (hlt : i < j)
    (hconflict : Conflicting (submissions labels) i j) {front : List LogCall}
    (hfront : front <+: s.log) (hready : Entered .SCHED_READY front j) :
    ∀ kind, Entered kind front i := by
  have hcleaned := cleaned_before_ready hrun hlt hconflict hfront hready
  intro kind
  obtain ⟨m, hm, hstage⟩ := stage_of_kind kind
  exact entered_of_entered hrun hm hstage rfl hfront hcleaned

def overlappingLog : List LogCall :=
  [⟨⟨0, 0⟩, .SUBMIT, -1⟩, ⟨⟨1, 1⟩, .SUBMIT, -1⟩, ⟨⟨2, 2⟩, .SUBMIT, -1⟩, ⟨⟨0, 0⟩, .SCHED_READY, 0⟩,
    ⟨⟨1, 1⟩, .SCHED_READY, 1⟩, ⟨⟨0, 0⟩, .WORK_RECV, 0⟩, ⟨⟨1, 1⟩, .WORK_RECV, 1⟩,
    ⟨⟨1, 1⟩, .DONE, 1⟩, ⟨⟨0, 0⟩, .DONE, 0⟩, ⟨⟨0, 0⟩, .CLEANUP, -1⟩, ⟨⟨1, 1⟩, .CLEANUP, -1⟩,
    ⟨⟨2, 2⟩, .SCHED_READY, 0⟩, ⟨⟨2, 2⟩, .WORK_RECV, 0⟩]

theorem overlappingRun_reaches :
    ∃ s, Run (Of (step twoPuppets)) initState overlappingRun s ∧ s.log = overlappingLog := by
  have hexec : (exec (step twoPuppets) initState overlappingRun).any
      (fun s => s.log = overlappingLog) = true := by
    decide +kernel
  obtain ⟨s, hs, hlog⟩ := (Option.any_eq_true _ _).mp hexec
  exact ⟨s, run_of_exec hs, of_decide_eq_true hlog⟩

theorem conflicting_overlapping : Conflicting (submissions overlappingRun) 0 2 :=
  ⟨.writing 0 1, .writing 2 1, rfl, rfl, by decide⟩

theorem conflicting_in_submission_order_overlapping :
    ∃ s, Run (Of (step twoPuppets)) initState overlappingRun s ∧ ∀ kind, Entered kind s.log 0 := by
  obtain ⟨s, hrun, hlog⟩ := overlappingRun_reaches
  refine ⟨s, hrun, conflicting_in_submission_order hrun (i := 0) (j := 2) (by decide)
    conflicting_overlapping List.prefix_rfl ?_⟩
  rw [hlog]
  decide

-- Whatever the workers do to the objects between the WORK_RECV and the DONE entries of their
-- transactions, interleaved in any way, amounts to one transaction after the other in the
-- order of submission.
theorem serializable {V L : Type*} (hrun : Run (Of (Scheduler.step cfg)) (init jobs handles) labels s)
    {steps : List (LogCall ⊕ ℕ × Access ObjId V L)}
    (hsteps : InWindows Prod.fst (Entered .WORK_RECV) (Entered .DONE) s.log steps)
    (hdeclared : ∀ step ∈ actionsOf steps, ∃ txn, (submissions labels)[step.1]? = some txn ∧
      txn.Declares step.2) (store : Store ObjId V L) :
    (actionsOf steps).foldl Store.perform store =
      (inTurn Prod.fst (submissions labels).length (actionsOf steps)).foldl Store.perform store := by
  have hpairs : (actionsOf steps).Pairwise fun x y =>
      y.1 < x.1 → ¬ Conflicting (submissions labels) y.1 x.1 := by
    refine hsteps.pairwise (fun _ _ _ h => h.mono (List.prefix_append _ _)) ?_
    intro front hfront i j hlt hconflict hreceived
    have hready := entered_of_entered (m := 1) (n := 2) hrun (by simp) rfl rfl hfront hreceived
    have hcleaned := cleaned_before_ready hrun hlt hconflict hfront hready
    exact entered_of_entered (m := 3) (n := 4) hrun (by simp) rfl rfl hfront hcleaned
  refine foldl_inTurn ?_ (fun step hstep => ?_) store
  · refine hpairs.imp_of_mem fun {x y} hx hy hindependent hlt => ?_
    obtain ⟨a, ha, hdeclares⟩ := hdeclared x hx
    obtain ⟨b, hb, hdeclares'⟩ := hdeclared y hy
    refine hdeclares.independent hdeclares' hlt.ne' ?_
    rw [check_txn_conflict_comm, ← Bool.not_eq_true]
    exact fun hconflict => hindependent hlt ⟨b, a, hb, ha, hconflict⟩
  · obtain ⟨txn, htxn, -⟩ := hdeclared step hstep
    exact (List.getElem?_eq_some_iff.mp htxn).1

-- The second transaction writes before the first one does, and the third one reads.
def overlappingSteps : List (LogCall ⊕ ℕ × Access ObjId ℕ ℕ) :=
  (overlappingLog.take 7).map .inl ++ [.inr (1, .write 2 id), .inr (0, .write 1 id)] ++
    (overlappingLog.drop 7).map .inl ++ [.inr (2, .read 1 fun _ v => v)]

theorem overlappingSteps_in_windows :
    InWindows Prod.fst (Entered .WORK_RECV) (Entered .DONE) overlappingLog overlappingSteps := by
  have hfront : InWindows Prod.fst (Entered .WORK_RECV) (Entered .DONE) (overlappingLog.take 7)
      ((overlappingLog.take 7).map (.inl : LogCall → LogCall ⊕ ℕ × Access ObjId ℕ ℕ)) :=
    InWindows.nil.entries (overlappingLog.take 7)
  have hsecond := hfront.act (a := (1, .write 2 id)) (by decide) (by decide)
  have hfirst := hsecond.act (a := (0, .write 1 id)) (by decide) (by decide)
  exact (hfirst.entries (overlappingLog.drop 7)).act (a := (2, .read 1 fun _ v => v)) (by decide) (by decide)

theorem serializable_overlapping :
    ∃ s, Run (Of (step twoPuppets)) initState overlappingRun s ∧
      InWindows Prod.fst (Entered .WORK_RECV) (Entered .DONE) s.log overlappingSteps ∧
      ∀ store, (actionsOf overlappingSteps).foldl Store.perform store =
        (inTurn Prod.fst 3 (actionsOf overlappingSteps)).foldl Store.perform store := by
  obtain ⟨s, hrun, hlog⟩ := overlappingRun_reaches
  have hsteps : InWindows Prod.fst (Entered .WORK_RECV) (Entered .DONE) s.log overlappingSteps := by
    rw [hlog]
    exact overlappingSteps_in_windows
  refine ⟨s, hrun, hsteps, serializable hrun hsteps fun step hstep => ?_⟩
  have hactions : actionsOf overlappingSteps =
      [(1, .write 2 id), (0, .write 1 id), (2, .read 1 fun _ v => v)] := rfl
  simp only [hactions, List.mem_cons, List.not_mem_nil, or_false] at hstep
  rcases hstep with rfl | rfl | rfl
  · exact ⟨.writing 1 2, rfl, ⟨0, by decide⟩, rfl⟩
  · exact ⟨.writing 0 1, rfl, ⟨0, by decide⟩, rfl⟩
  · exact ⟨.writing 2 1, rfl, .inr ⟨⟨0, by decide⟩, rfl⟩⟩

end Scheduler

end Puppetmaster.Wrapper
