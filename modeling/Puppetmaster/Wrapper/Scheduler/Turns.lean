import Puppetmaster.Wrapper.Scheduler.Serializable

namespace Puppetmaster.Wrapper

-- The id polled and not yet logged as received.
def WorkerPC.polled : WorkerPC → List Handle
  | .received txn_id => [txn_id]
  | _ => []

-- The id received and not yet logged as done.
def WorkerPC.busy : WorkerPC → List Handle
  | .working txn_id => [txn_id]
  | _ => []

theorem WorkerPC.nothing_of_held {pc : WorkerPC} (h : pc.held = []) : pc.polled = [] ∧ pc.busy = [] := by
  cases pc <;> first | exact ⟨rfl, rfl⟩ | exact absurd h (by simp [held])

namespace Scheduler

open Library Library.Transition

variable {cfg : Config} {s t : Scheduler} {labels : List Label} {jobs : ℕ → Job} {handles : ℕ → Handle}

-- A worker logs the number of its puppet, which is that of the transaction's turn.
def OnTurn (cfg : Config) (call : LogCall) : Prop :=
  call.kind = .WORK_RECV ∨ call.kind = .DONE →
    call.aux_data = BitVec.ofNat 64 (call.handle.serial % cfg.num_puppets)

structure Assigned (cfg : Config) (s : Scheduler) : Prop where
  active : ∀ p, ∀ txn ∈ (s.active_txns p).toList, txn.serial % cfg.num_puppets = p.val
  worked : ∀ call ∈ s.log, OnTurn cfg call

theorem Assigned.init (cfg : Config) (jobs : ℕ → Job) (handles : ℕ → Handle) :
    Assigned cfg (Scheduler.init jobs handles) where
  active p txn htxn := by simp [Scheduler.init] at htxn
  worked call hcall := absurd hcall List.not_mem_nil

-- The transaction of a worker is active at its puppet.
theorem Assigned.held (h : Assigned cfg s) (ho : Orderly cfg s) (puppet : PuppetIndex)
    {txn_id : Handle} (hheld : txn_id ∈ (s.workers puppet).held) :
    txn_id.serial % cfg.num_puppets = puppet.val := by
  have hmem : txn_id ∈ s.activeIds puppet := by
    rw [ho.in_order puppet]
    simp [pipeline, inFlight, hheld]
  obtain ⟨txn, htxn, rfl⟩ := List.mem_map.mp hmem
  exact h.active puppet txn htxn

theorem Assigned.keep (h : Assigned cfg s)
    (hactive : ∀ p, ∀ txn ∈ (t.active_txns p).toList, txn ∈ (s.active_txns p).toList ∨
      txn.serial % cfg.num_puppets = p.val)
    (calls : List LogCall) (hlog : t.log = s.log ++ calls) (hcalls : ∀ call ∈ calls, OnTurn cfg call) :
    Assigned cfg t where
  active p txn htxn := by
    rcases hactive p txn htxn with hmem | hturn
    · exact h.active p txn hmem
    · exact hturn
  worked call hcall := by
    rw [hlog, List.mem_append] at hcall
    rcases hcall with hcall | hcall
    · exact h.worked call hcall
    · exact hcalls call hcall

-- A step that leaves the active transactions as they are and logs no work.
theorem Assigned.idle (h : Assigned cfg s) (hactive : t.active_txns = s.active_txns)
    (calls : List LogCall) (hlog : t.log = s.log ++ calls)
    (hcalls : ∀ call ∈ calls, call.kind ≠ .WORK_RECV ∧ call.kind ≠ .DONE) : Assigned cfg t := by
  refine h.keep (fun p txn htxn => .inl (by rwa [← hactive])) calls hlog fun call hcall hwork => ?_
  obtain ⟨hrecv, hdone⟩ := hcalls call hcall
  rcases hwork with hwork | hwork
  · exact absurd hwork hrecv
  · exact absurd hwork hdone

theorem Assigned.step {label : Label} {txns : List Txn} {k : ℕ} (ho : Orderly cfg s)
    (hs : Serial cfg txns k s) (h : Assigned cfg s) (hfires : Fires cfg s label t) :
    Assigned cfg t := by
  cases hfires with
  | removeActive hpc hactive =>
      refine h.keep (fun p txn htxn => .inl ?_) [] (List.append_nil _).symm (by simp)
      rename_i puppet txn_id gone q
      by_cases hp : p = puppet
      · subst hp
        rw [hactive]
        simp only [Function.update_self] at htxn
        exact List.mem_cons_of_mem _ htxn
      · simpa only [Function.update_of_ne hp] using htxn
  | @putActive client new q hpc hactive =>
      refine h.keep (fun p txn htxn => ?_) [] (List.append_nil _).symm (by simp)
      by_cases hp : p = s.current_puppet_id
      · subst hp
        simp only [Function.update_self, hactive, List.mem_append, List.mem_singleton] at htxn
        rcases htxn with htxn | rfl
        · exact .inl htxn
        · refine .inr ?_
          rw [(hs.taken_eq hpc).2.1, hs.turn, hpc]
          rfl
      · exact .inl (by simpa only [Function.update_of_ne hp] using htxn)
  | logCleanup | logReady | submit => exact h.idle rfl [_] rfl (by simp)
  | @logRecv puppet txn_id hpc =>
      refine h.keep (fun p txn htxn => .inl htxn) [_] rfl fun call hcall _ => ?_
      obtain rfl := List.mem_singleton.mp hcall
      rw [h.held ho puppet (by simp [hpc, WorkerPC.held])]
  | @logDone puppet txn_id hpc =>
      refine h.keep (fun p txn htxn => .inl htxn) [_] rfl fun call hcall _ => ?_
      obtain rfl := List.mem_singleton.mp hcall
      rw [h.held ho puppet (by simp [hpc, WorkerPC.held])]
  | _ => exact h.idle rfl [] (List.append_nil _).symm (by simp)

-- The transactions that a puppet has logged, in the order of the log.
def serials (kind : PmlogKind) (p : PuppetIndex) (log : List LogCall) : List ℕ :=
  (log.filter fun call => call.kind = kind ∧ call.aux_data = BitVec.ofNat 64 p.val).map
    fun call => call.handle.serial

theorem serials_append (kind : PmlogKind) (p : PuppetIndex) (log calls : List LogCall) :
    serials kind p (log ++ calls) = serials kind p log ++ serials kind p calls := by
  rw [serials, List.filter_append, List.map_append, serials, serials]

theorem serials_other {kind : PmlogKind} {p : PuppetIndex} {calls : List LogCall}
    (h : ∀ call ∈ calls, call.kind ≠ kind) : serials kind p calls = [] := by
  rw [serials, List.filter_eq_nil_iff.mpr, List.map_nil]
  intro call hcall
  simp [h call hcall]

theorem serials_call (kind : PmlogKind) (p q : PuppetIndex) (txn_id : Handle) :
    serials kind p [⟨txn_id, kind, BitVec.ofNat 64 q.val⟩] = if q = p then [txn_id.serial] else [] := by
  have hinj : BitVec.ofNat 64 q.val = BitVec.ofNat 64 p.val ↔ q = p := by
    have hp : p.val < 16 := p.isLt
    have hq : q.val < 16 := q.isLt
    rw [← BitVec.toNat_inj, BitVec.toNat_ofNat, BitVec.toNat_ofNat, Fin.ext_iff]
    omega
  by_cases hq : q = p <;> simp [serials, hinj, hq]

-- What is on its way to a worker, which has not logged it yet.
def arriving (s : Scheduler) (p : PuppetIndex) : List Handle :=
  (s.workers p).polled ++ (s.sched_qs p).toList ++ s.admitting p

-- Of the first `k` transactions every puppet receives those whose turn it is, in order, and is
-- done with them in the same order.
structure Fed (cfg : Config) (k : ℕ) (s : Scheduler) : Prop where
  received : ∀ p, serials .WORK_RECV p s.log ++ (s.arriving p).map Handle.serial =
    (List.range k).filter fun n => n % cfg.num_puppets = p.val
  done : ∀ p, serials .DONE p s.log ++ (s.workers p).busy.map Handle.serial =
    serials .WORK_RECV p s.log

variable {k : ℕ}

theorem Fed.init (cfg : Config) (jobs : ℕ → Job) (handles : ℕ → Handle) :
    Fed cfg 0 (Scheduler.init jobs handles) where
  received p := by
    rw [arriving, admitting_of_quiet rfl]
    simp [Scheduler.init, serials, WorkerPC.polled]
  done p := by simp [Scheduler.init, serials, WorkerPC.busy]

-- A step that is not one of a worker with a transaction.
theorem Fed.keep (h : Fed cfg k s) (harriving : ∀ p, t.arriving p = s.arriving p)
    (hbusy : ∀ p, (t.workers p).busy = (s.workers p).busy) (calls : List LogCall)
    (hlog : t.log = s.log ++ calls)
    (hcalls : ∀ call ∈ calls, call.kind ≠ .WORK_RECV ∧ call.kind ≠ .DONE) : Fed cfg k t where
  received p := by
    rw [hlog, serials_append, serials_other fun call hcall => (hcalls call hcall).1, List.append_nil,
      harriving, h.received p]
  done p := by
    rw [hlog, serials_append, serials_append, serials_other fun call hcall => (hcalls call hcall).1,
      serials_other fun call hcall => (hcalls call hcall).2, List.append_nil, List.append_nil, hbusy,
      h.done p]

theorem Fed.putActive {txns : List Txn} (hs : Serial cfg txns k s) (h : Fed cfg k s)
    {client : ClientIndex} {txn : Job} {q : Ring Job MAX_ACTIVE_PER_PUPPET}
    (hpc : s.pc = .enqActive client txn) :
    Fed cfg (k + 1) { s with
      active_txns := Function.update s.active_txns s.current_puppet_id q
      pc := .logReady client txn } where
  received p := by
    have hreceived := h.received p
    have hturn : s.current_puppet_id.val = k % cfg.num_puppets := hs.turn.trans (by rw [hpc]; rfl)
    simp only [arriving, admitting, hpc, SchedulerPC.admitted, ite_self, List.append_nil,
      List.map_append] at hreceived ⊢
    rw [List.range_succ, List.filter_append, ← hreceived, List.append_assoc, List.append_assoc,
      List.append_assoc]
    congr 3
    by_cases hp : s.current_puppet_id = p
    · subst hp
      rw [if_pos rfl, List.map_singleton, Job.handle, (hs.taken_eq hpc).2.1,
        List.filter_cons_of_pos (by simpa using hturn.symm), List.filter_nil]
    · have hne : ¬ k % cfg.num_puppets = p.val := fun heq => hp (Fin.ext (hturn.trans heq))
      rw [if_neg hp, List.map_nil, List.filter_cons_of_neg (by simpa using hne), List.filter_nil]
  done := h.done

theorem Fed.dispatch (h : Fed cfg k s) {client : ClientIndex} {txn : Job}
    {q : Ring Handle MAX_ACTIVE_PER_PUPPET} (hpc : s.pc = .enqSched client txn)
    (hsched : q.toList = (s.sched_qs s.current_puppet_id).toList ++ [txn.handle]) :
    Fed cfg k { s with
      sched_qs := Function.update s.sched_qs s.current_puppet_id q
      pc := .advance client } := by
  refine h.keep (fun p => ?_) (fun _ => rfl) [] (List.append_nil _).symm (by simp)
  simp only [arriving, admitting, hpc, SchedulerPC.admitted, ite_self, List.append_nil]
  by_cases hp : s.current_puppet_id = p
  · subst hp
    rw [Function.update_self, hsched, if_pos rfl, List.append_assoc]
  · rw [Function.update_of_ne (Ne.symm hp), if_neg hp, List.append_nil]

theorem Fed.poll (h : Fed cfg k s) {puppet : PuppetIndex} {txn_id : Handle}
    {q : Ring Handle MAX_ACTIVE_PER_PUPPET} (hpc : s.workers puppet = .polling)
    (hsched : (s.sched_qs puppet).toList = txn_id :: q.toList) :
    Fed cfg k { s with
      sched_qs := Function.update s.sched_qs puppet q
      workers := Function.update s.workers puppet (.received txn_id) } := by
  refine h.keep (fun p => ?_) (fun p => ?_) [] (List.append_nil _).symm (by simp)
  · by_cases hp : p = puppet
    · subst hp
      simp only [arriving, admitting, Function.update_self, hpc, hsched, WorkerPC.polled]
      rfl
    · simp only [arriving, admitting, Function.update_of_ne hp]
  · by_cases hp : p = puppet
    · subst hp
      simp only [Function.update_self, hpc, WorkerPC.busy]
    · simp only [Function.update_of_ne hp]

theorem Fed.logRecv (h : Fed cfg k s) {puppet : PuppetIndex} {txn_id : Handle}
    (hpc : s.workers puppet = .received txn_id) :
    Fed cfg k { s.pmlog_record txn_id .WORK_RECV (BitVec.ofNat 64 puppet.val) with
      workers := Function.update s.workers puppet (.working txn_id) } where
  received p := by
    rw [← h.received p, pmlog_record, serials_append, serials_call, List.append_assoc]
    by_cases hp : p = puppet
    · subst hp
      simp only [arriving, admitting, Function.update_self, hpc, WorkerPC.polled, if_true]
      rfl
    · rw [if_neg (Ne.symm hp)]
      simp only [arriving, admitting, Function.update_of_ne hp, List.nil_append]
  done p := by
    have hother : serials .DONE p [⟨txn_id, .WORK_RECV, BitVec.ofNat 64 puppet.val⟩] = [] :=
      serials_other (by simp)
    rw [pmlog_record, serials_append, serials_append, serials_call, ← h.done p, hother, List.append_nil]
    by_cases hp : p = puppet
    · subst hp
      simp only [Function.update_self, hpc, WorkerPC.busy, List.map_nil, List.append_nil, if_true]
      rfl
    · rw [if_neg (Ne.symm hp)]
      simp only [Function.update_of_ne hp, List.append_nil]

theorem Fed.logDone (h : Fed cfg k s) {puppet : PuppetIndex} {txn_id : Handle}
    (hpc : s.workers puppet = .working txn_id) :
    Fed cfg k { s.pmlog_record txn_id .DONE (BitVec.ofNat 64 puppet.val) with
      workers := Function.update s.workers puppet (.reporting txn_id) } where
  received p := by
    have hother : serials .WORK_RECV p [⟨txn_id, .DONE, BitVec.ofNat 64 puppet.val⟩] = [] :=
      serials_other (by simp)
    rw [← h.received p, pmlog_record, serials_append, hother, List.append_nil]
    by_cases hp : p = puppet
    · subst hp
      simp only [arriving, admitting, Function.update_self, hpc, WorkerPC.polled]
    · simp only [arriving, admitting, Function.update_of_ne hp]
  done p := by
    have hother : serials .WORK_RECV p [⟨txn_id, .DONE, BitVec.ofNat 64 puppet.val⟩] = [] :=
      serials_other (by simp)
    rw [pmlog_record, serials_append, serials_append, serials_call, hother, List.append_nil, ← h.done p]
    by_cases hp : p = puppet
    · subst hp
      simp only [Function.update_self, hpc, WorkerPC.busy, List.map_nil, List.append_nil, if_true]
      rfl
    · rw [if_neg (Ne.symm hp)]
      simp only [Function.update_of_ne hp, List.append_nil]

-- A step of the scheduler thread that starts nothing and puts nothing into a sched queue.
theorem Fed.of_pc (h : Fed cfg k s) (hsched : t.sched_qs = s.sched_qs) (hworkers : t.workers = s.workers)
    (hadmitting : ∀ p, t.admitting p = s.admitting p) (calls : List LogCall)
    (hlog : t.log = s.log ++ calls)
    (hcalls : ∀ call ∈ calls, call.kind ≠ .WORK_RECV ∧ call.kind ≠ .DONE) : Fed cfg k t :=
  h.keep (fun p => by rw [arriving, hsched, hworkers, hadmitting p, arriving])
    (fun p => by rw [hworkers]) calls hlog hcalls

-- A step of a worker without a transaction in its hands before or after.
theorem Fed.workerGoto (h : Fed cfg k s) {puppet : PuppetIndex} {pc : WorkerPC}
    (hpolled : pc.polled = (s.workers puppet).polled) (hbusy : pc.busy = (s.workers puppet).busy)
    (done_qs : PuppetIndex → Ring Handle MAX_ACTIVE_PER_PUPPET) :
    Fed cfg k { s with
      done_qs := done_qs
      workers := Function.update s.workers puppet pc } := by
  refine h.keep (fun p => ?_) (fun p => ?_) [] (List.append_nil _).symm (by simp)
  · by_cases hp : p = puppet
    · subst hp
      simp only [arriving, admitting, Function.update_self, hpolled]
    · simp only [arriving, admitting, Function.update_of_ne hp]
  · by_cases hp : p = puppet
    · subst hp
      simp only [Function.update_self, hbusy]
    · simp only [Function.update_of_ne hp]

theorem Fed.step {label : Label} {txns : List Txn} (ho : Orderly cfg s) (hs : Serial cfg txns k s)
    (h : Fed cfg k s) (hfires : Fires cfg s label t) : Fed cfg (k + s.starts label) t := by
  have hnext := ho.step hfires
  cases hfires with
  | goto hquiet hquiet' =>
      rw [starts, (SchedulerPC.nothing_of_quiet hquiet).2.2.2]
      refine h.of_pc rfl rfl (fun p => ?_) [] (List.append_nil _).symm (by simp)
      rw [admitting_of_quiet hquiet, admitting_of_quiet hquiet']
  | lostActive => exact absurd rfl hnext.not_failed
  | lostPending => exact absurd rfl hnext.not_failed
  | fullActive => exact absurd rfl hnext.not_failed
  | fullSched => exact absurd rfl hnext.not_failed
  | takeDone hpc | takePending hpc =>
      rw [starts, hpc]
      refine h.of_pc rfl rfl (fun p => ?_) [] (List.append_nil _).symm (by simp)
      simp only [admitting, hpc]
      rfl
  | removeActive hpc hactive =>
      obtain ⟨rfl, -⟩ := ho.removed_eq hpc hactive
      rw [starts, hpc, Job.handle_id, if_pos rfl]
      refine h.of_pc rfl rfl (fun p => ?_) [] (List.append_nil _).symm (by simp)
      simp only [admitting, hpc]
      rfl
  | logCleanup hpc | logReady hpc =>
      rw [starts, hpc]
      refine h.of_pc rfl rfl (fun p => ?_) [_] rfl (by simp)
      simp only [admitting, pmlog_record, hpc]
      rfl
  | putActive hpc =>
      rw [starts, hpc]
      exact Fed.putActive hs h hpc
  | dispatch hpc hsched =>
      rw [starts, hpc]
      exact h.dispatch hpc hsched
  | advance hpc =>
      rw [starts, hpc]
      refine h.of_pc rfl rfl (fun p => ?_) [] (List.append_nil _).symm (by simp)
      rw [admitting_of_quiet (by split <;> rfl), admitting_of_quiet (by rw [hpc]; rfl)]
  | workerGoto hheld hheld' =>
      obtain ⟨hpolled, hbusy⟩ := WorkerPC.nothing_of_held hheld
      obtain ⟨hpolled', hbusy'⟩ := WorkerPC.nothing_of_held hheld'
      exact h.workerGoto (hpolled'.trans hpolled.symm) (hbusy'.trans hbusy.symm) _
  | poll hpc hsched => exact h.poll hpc hsched
  | logRecv hpc => exact h.logRecv hpc
  | logDone hpc => exact h.logDone hpc
  | reportFull | putFull => exact h
  | report hpc => exact h.workerGoto (by rw [hpc]; rfl) (by rw [hpc]; rfl) _
  | submit => exact h.of_pc rfl rfl (fun _ => rfl) [_] rfl (by simp)
  | put | shutdown => exact h.of_pc rfl rfl (fun _ => rfl) [] (List.append_nil _).symm (by simp)

theorem fed_of_run (hrun : Run (Of (Scheduler.step cfg)) (init jobs handles) labels s) :
    ∃ k, Serial cfg (submissions labels) k s ∧ Fed cfg k s ∧ Assigned cfg s := by
  have hall : Orderly cfg s ∧ ∃ k, Serial cfg (submissions labels) k s ∧ Fed cfg k s ∧ Assigned cfg s :=
    hrun.history (fun labels s => Orderly cfg s ∧
        ∃ k, Serial cfg (submissions labels) k s ∧ Fed cfg k s ∧ Assigned cfg s)
      ⟨Orderly.init cfg jobs handles, 0, Serial.init cfg jobs handles, Fed.init cfg jobs handles,
        Assigned.init cfg jobs handles⟩ fun labels s label t h hstep => by
        obtain ⟨ho, k, hs, hfed, hassigned⟩ := h
        have hfires := fires_of_step hstep
        rw [submissions_snoc]
        exact ⟨ho.step hfires, _, hs.step ho hstep, hfed.step ho hs hfires, hassigned.step ho hs hfires⟩
  exact hall.2

-- What the log shows of the turns that the puppets take.
structure TakesTurns (cfg : Config) (txns : List Txn) (s : Scheduler) : Prop where
  scheduled : ∃ n ≤ txns.length, readyCalls s.log = ((numbered txns).take n).map (readyCall cfg)
  on_turn : ∀ call ∈ s.log, OnTurn cfg call
  received : ∀ p, serials .WORK_RECV p s.log <+:
    (List.range txns.length).filter fun n => n % cfg.num_puppets = p.val
  done : ∀ p, serials .DONE p s.log <+: serials .WORK_RECV p s.log

-- Transactions are scheduled in the order of their submission, the puppets taking turns, and
-- every puppet receives and completes those of its turns in that order.
theorem puppets_take_turns (hrun : Run (Of (Scheduler.step cfg)) (init jobs handles) labels s) :
    TakesTurns cfg (submissions labels) s := by
  obtain ⟨k, hs, hfed, hassigned⟩ := fed_of_run hrun
  refine ⟨⟨(readyCalls s.log).length, ?_, ?_⟩, hassigned.worked, fun p => ?_, fun p => ⟨_, hfed.done p⟩⟩
  · have hlength := congrArg List.length hs.ready
    have hle := hs.started_le
    simp only [List.length_append, List.length_map, List.length_take, length_numbered] at hlength
    omega
  · have hpre : readyCalls s.log <+: ((numbered (submissions labels)).take k).map (readyCall cfg) :=
      ⟨_, hs.ready⟩
    have hlength := hpre.length_le
    rw [List.length_map, List.length_take] at hlength
    have htake := List.prefix_iff_eq_take.mp hpre
    rw [← List.map_take, List.take_take, Nat.min_eq_left (by omega)] at htake
    exact htake
  · refine List.IsPrefix.trans ⟨_, hfed.received p⟩ (List.IsPrefix.filter _ ?_)
    obtain ⟨rest, hrest⟩ := Nat.exists_eq_add_of_le hs.started_le
    rw [hrest, List.range_add]
    exact List.prefix_append _ _

theorem puppets_take_turns_overlapping :
    ∃ s, Run (Of (step twoPuppets)) initState overlappingRun s ∧ serials .WORK_RECV 0 s.log = [0, 2] ∧
      TakesTurns twoPuppets (submissions overlappingRun) s := by
  obtain ⟨s, hrun, hlog⟩ := overlappingRun_reaches
  refine ⟨s, hrun, ?_, puppets_take_turns hrun⟩
  rw [hlog]
  decide

end Scheduler

end Puppetmaster.Wrapper
