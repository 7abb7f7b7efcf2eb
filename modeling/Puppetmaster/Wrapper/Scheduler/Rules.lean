import Puppetmaster.Wrapper.Scheduler

namespace Puppetmaster.Wrapper

open Library

-- The scheduler thread has taken nothing out of a queue that it still has to put elsewhere.
def SchedulerPC.quiet : SchedulerPC → Bool
  | .deqActive _ _ | .logCleanup _ _ | .enqActive _ _ | .logReady _ _ | .enqSched _ _ => false
  | _ => true

-- The id a worker has polled and not yet reported.
def WorkerPC.held : WorkerPC → List Handle
  | .received txn_id | .working txn_id | .reporting txn_id => [txn_id]
  | _ => []

namespace Scheduler

-- No active transaction conflicts with `txn`.
def Clear (cfg : Config) (s : Scheduler) (txn : Txn) : Prop :=
  ∀ puppet, puppet.val < cfg.num_puppets → ∀ active ∈ (s.active_txns puppet).toList,
    check_txn_conflict txn active.txn = false

-- What the scheduler thread has found out and still relies on.
def Ready (cfg : Config) (s : Scheduler) : SchedulerPC → Prop
  | .peekPending _ => (s.active_txns s.current_puppet_id).full = false
  | .deqPending client txn => (s.active_txns s.current_puppet_id).full = false ∧
      (s.pending_qs client).toList.head? = some txn ∧ s.Clear cfg txn.txn
  | .enqActive _ txn =>
      (s.active_txns s.current_puppet_id).full = false ∧ s.Clear cfg txn.txn
  | _ => True

theorem conflicts_with_active_eq_false {cfg : Config} {s : Scheduler} {txn : Txn} :
    s.conflicts_with_active cfg txn = false ↔ s.Clear cfg txn := by
  simp only [conflicts_with_active, Ring.scan_head, List.any_eq_false, List.mem_finRange,
    true_implies, Bool.and_eq_true, decide_eq_true_eq, beq_iff_eq, Option.some.injEq,
    List.any_eq_true, not_and, not_exists, Bool.not_eq_true, Clear]

-- What each step requires and does.
inductive Fires (cfg : Config) (s : Scheduler) : Label → Scheduler → Prop
  -- the steps of the scheduler thread that only move it
  | goto {pc : SchedulerPC} (hquiet : s.pc.quiet = true) (hquiet' : pc.quiet = true)
      (hfailed : pc ≠ .failed) (hready : s.Ready cfg s.pc → s.Ready cfg pc) :
      Fires cfg s .scheduler { s with pc := pc }
  | takeDone {puppet : PuppetIndex} {txn_id : Handle} {q : Ring Handle MAX_ACTIVE_PER_PUPPET}
      (hpc : s.pc = .deqDone puppet) (hdone : (s.done_qs puppet).toList = txn_id :: q.toList) :
      Fires cfg s .scheduler { s with
        done_qs := Function.update s.done_qs puppet q
        pc := .deqActive puppet txn_id }
  | lostActive {puppet : PuppetIndex} {txn_id : Handle} (hpc : s.pc = .deqActive puppet txn_id)
      (hactive : (s.active_txns puppet).toList = []) :
      Fires cfg s .scheduler { s with pc := .failed }
  | removeActive {puppet : PuppetIndex} {txn_id : Handle} {txn : Job}
      {q : Ring Job MAX_ACTIVE_PER_PUPPET} (hpc : s.pc = .deqActive puppet txn_id)
      (hactive : (s.active_txns puppet).toList = txn :: q.toList) :
      Fires cfg s .scheduler { s with
        active_txns := Function.update s.active_txns puppet q
        pc := if txn.txn.id = txn_id.id then .logCleanup puppet txn_id else .failed }
  | logCleanup {puppet : PuppetIndex} {txn_id : Handle} (hpc : s.pc = .logCleanup puppet txn_id) :
      Fires cfg s .scheduler { s.pmlog_record txn_id .CLEANUP (-1) with pc := .deqDone puppet }
  | lostPending {client : ClientIndex} {txn : Job} (hpc : s.pc = .deqPending client txn)
      (hpending : (s.pending_qs client).toList = []) :
      Fires cfg s .scheduler { s with pc := .failed }
  | takePending {client : ClientIndex} {peeked txn : Job} {q : Ring Job MAX_PENDING_PER_CLIENT}
      (hpc : s.pc = .deqPending client peeked)
      (hpending : (s.pending_qs client).toList = txn :: q.toList) :
      Fires cfg s .scheduler { s with
        pending_qs := Function.update s.pending_qs client q
        pc := .enqActive client txn }
  | fullActive {client : ClientIndex} {txn : Job} (hpc : s.pc = .enqActive client txn)
      (hfull : (s.active_txns s.current_puppet_id).full = true) :
      Fires cfg s .scheduler { s with pc := .failed }
  | putActive {client : ClientIndex} {txn : Job} {q : Ring Job MAX_ACTIVE_PER_PUPPET}
      (hpc : s.pc = .enqActive client txn)
      (hactive : q.toList = (s.active_txns s.current_puppet_id).toList ++ [txn]) :
      Fires cfg s .scheduler { s with
        active_txns := Function.update s.active_txns s.current_puppet_id q
        pc := .logReady client txn }
  | logReady {client : ClientIndex} {txn : Job} (hpc : s.pc = .logReady client txn) :
      Fires cfg s .scheduler
        { s.pmlog_record txn.handle .SCHED_READY (BitVec.ofNat 64 s.current_puppet_id.val) with
          pc := .enqSched client txn }
  | fullSched {client : ClientIndex} {txn : Job} (hpc : s.pc = .enqSched client txn)
      (hfull : (s.sched_qs s.current_puppet_id).full = true) :
      Fires cfg s .scheduler { s with pc := .failed }
  | dispatch {client : ClientIndex} {txn : Job} {q : Ring Handle MAX_ACTIVE_PER_PUPPET}
      (hpc : s.pc = .enqSched client txn)
      (hsched : q.toList = (s.sched_qs s.current_puppet_id).toList ++ [txn.handle]) :
      Fires cfg s .scheduler { s with
        sched_qs := Function.update s.sched_qs s.current_puppet_id q
        pc := .advance client }
  | advance {client : ClientIndex} (hpc : s.pc = .advance client) :
      Fires cfg s .scheduler { s with
        current_puppet_id := cfg.nextPuppet s.current_puppet_id
        pc := if (s.active_txns (cfg.nextPuppet s.current_puppet_id)).full then
            .drainPending (client.val + 1)
          else .peekPending client }
  -- the steps of a worker that only move it
  | workerGoto {puppet : PuppetIndex} {pc : WorkerPC} (hheld : (s.workers puppet).held = [])
      (hheld' : pc.held = []) :
      Fires cfg s (.worker puppet) { s with workers := Function.update s.workers puppet pc }
  | poll {puppet : PuppetIndex} {txn_id : Handle} {q : Ring Handle MAX_ACTIVE_PER_PUPPET}
      (hpc : s.workers puppet = .polling)
      (hsched : (s.sched_qs puppet).toList = txn_id :: q.toList) :
      Fires cfg s (.worker puppet) { s with
        sched_qs := Function.update s.sched_qs puppet q
        workers := Function.update s.workers puppet (.received txn_id) }
  | logRecv {puppet : PuppetIndex} {txn_id : Handle} (hpc : s.workers puppet = .received txn_id) :
      Fires cfg s (.worker puppet)
        { s.pmlog_record txn_id .WORK_RECV (BitVec.ofNat 64 puppet.val) with
          workers := Function.update s.workers puppet (.working txn_id) }
  | logDone {puppet : PuppetIndex} {txn_id : Handle} (hpc : s.workers puppet = .working txn_id) :
      Fires cfg s (.worker puppet)
        { s.pmlog_record txn_id .DONE (BitVec.ofNat 64 puppet.val) with
          workers := Function.update s.workers puppet (.reporting txn_id) }
  | report {puppet : PuppetIndex} {txn_id : Handle} {q : Ring Handle MAX_ACTIVE_PER_PUPPET}
      (hpc : s.workers puppet = .reporting txn_id)
      (hdone : q.toList = (s.done_qs puppet).toList ++ [txn_id]) :
      Fires cfg s (.worker puppet) { s with
        done_qs := Function.update s.done_qs puppet q
        workers := Function.update s.workers puppet .idle }
  -- an enqueue that finds the queue full is tried again
  | reportFull {puppet : PuppetIndex} {txn_id : Handle}
      (hpc : s.workers puppet = .reporting txn_id) (hfull : (s.done_qs puppet).full = true) :
      Fires cfg s (.worker puppet) s
  | submit {client : ClientIndex} {txn : Txn} (hidle : s.clients client = .idle) :
      Fires cfg s (.submit client txn)
        { s.pmlog_record ⟨s.submitted, txn.id⟩ .SUBMIT (-1) with
          clients := Function.update s.clients client (.submitting ⟨s.submitted, txn⟩)
          submitted := s.submitted + 1 }
  | put {client : ClientIndex} {txn : Job} {q : Ring Job MAX_PENDING_PER_CLIENT}
      (hpc : s.clients client = .submitting txn)
      (hpending : q.toList = (s.pending_qs client).toList ++ [txn]) :
      Fires cfg s (.client client) { s with
        pending_qs := Function.update s.pending_qs client q
        clients := Function.update s.clients client .idle }
  | putFull {client : ClientIndex} {txn : Job} (hpc : s.clients client = .submitting txn)
      (hfull : (s.pending_qs client).full = true) : Fires cfg s (.client client) s
  | shutdown : Fires cfg s .shutdown { s with scheduler_running := false }

variable {cfg : Config} {s t : Scheduler}

theorem fires_of_scheduler (h : s.scheduler_loop cfg = some t) : Fires cfg s .scheduler t := by
  unfold scheduler_loop at h
  cases hpc : s.pc with
  | loopHead =>
      simp only [hpc] at h
      split_ifs at h <;> obtain rfl := Option.some.inj h <;>
        exact .goto (by rw [hpc]; rfl) rfl (by simp) fun _ => trivial
  | drainDone puppet =>
      simp only [hpc] at h
      split_ifs at h <;> obtain rfl := Option.some.inj h <;>
        exact .goto (by rw [hpc]; rfl) rfl (by simp) fun _ => trivial
  | deqDone puppet =>
      simp only [hpc] at h
      split at h
      · obtain rfl := Option.some.inj h
        exact .goto (by rw [hpc]; rfl) rfl (by simp) fun _ => trivial
      · rename_i hdeq
        obtain rfl := Option.some.inj h
        exact .takeDone hpc (Ring.toList_deq hdeq)
  | deqActive puppet txn_id =>
      simp only [hpc] at h
      split at h
      · rename_i hdeq
        obtain rfl := Option.some.inj h
        exact .lostActive hpc (Ring.deq_eq_none.mp hdeq)
      · rename_i hdeq
        obtain rfl := Option.some.inj h
        exact .removeActive hpc (Ring.toList_deq hdeq)
  | logCleanup puppet txn_id =>
      simp only [hpc, Option.some.injEq] at h
      exact h ▸ .logCleanup hpc
  | drainPending client =>
      simp only [hpc] at h
      split_ifs at h with _ hfull <;> obtain rfl := Option.some.inj h
      · exact .goto (by rw [hpc]; rfl) rfl (by simp) fun _ => trivial
      · exact .goto (by rw [hpc]; rfl) rfl (by simp) fun _ => Bool.eq_false_iff.mpr hfull
      · exact .goto (by rw [hpc]; rfl) rfl (by simp) fun _ => trivial
  | peekPending client =>
      simp only [hpc] at h
      split at h
      · obtain rfl := Option.some.inj h
        exact .goto (by rw [hpc]; rfl) rfl (by simp) fun _ => trivial
      · rename_i txn hpeek
        split_ifs at h with hconflict <;> obtain rfl := Option.some.inj h
        · exact .goto (by rw [hpc]; rfl) rfl (by simp) fun _ => trivial
        · refine .goto (by rw [hpc]; rfl) rfl (by simp) fun hready => ?_
          rw [hpc] at hready
          rw [Ring.peek_eq] at hpeek
          exact ⟨hready, hpeek,
            conflicts_with_active_eq_false.mp (Bool.eq_false_iff.mpr hconflict)⟩
  | deqPending client peeked =>
      simp only [hpc] at h
      split at h
      · rename_i hdeq
        obtain rfl := Option.some.inj h
        exact .lostPending hpc (Ring.deq_eq_none.mp hdeq)
      · rename_i hdeq
        obtain rfl := Option.some.inj h
        exact .takePending hpc (Ring.toList_deq hdeq)
  | enqActive client txn =>
      simp only [hpc] at h
      split at h
      · rename_i henq
        obtain rfl := Option.some.inj h
        exact .fullActive hpc (Ring.enq_eq_none.mp henq)
      · rename_i henq
        obtain rfl := Option.some.inj h
        exact .putActive hpc (Ring.toList_enq henq)
  | logReady client txn =>
      simp only [hpc, Option.some.injEq] at h
      exact h ▸ .logReady hpc
  | enqSched client txn =>
      simp only [hpc] at h
      split at h
      · rename_i henq
        obtain rfl := Option.some.inj h
        exact .fullSched hpc (Ring.enq_eq_none.mp henq)
      · rename_i henq
        obtain rfl := Option.some.inj h
        exact .dispatch hpc (Ring.toList_enq henq)
  | advance client =>
      simp only [hpc, Option.some.injEq] at h
      exact h ▸ .advance hpc
  | stopped => simp [hpc] at h
  | failed => simp [hpc] at h

theorem fires_of_worker {puppet : PuppetIndex} (h : s.puppet_thread puppet = some t) :
    Fires cfg s (.worker puppet) t := by
  unfold puppet_thread at h
  cases hpc : s.workers puppet with
  | idle =>
      simp only [hpc] at h
      split_ifs at h <;> obtain rfl := Option.some.inj h <;>
        exact .workerGoto (by rw [hpc]; rfl) rfl
  | polling =>
      simp only [hpc] at h
      split at h
      · obtain rfl := Option.some.inj h
        exact .workerGoto (by rw [hpc]; rfl) rfl
      · rename_i hdeq
        obtain rfl := Option.some.inj h
        exact .poll hpc (Ring.toList_deq hdeq)
  | received txn_id =>
      simp only [hpc, Option.some.injEq] at h
      exact h ▸ .logRecv hpc
  | working txn_id =>
      simp only [hpc, Option.some.injEq] at h
      exact h ▸ .logDone hpc
  | reporting txn_id =>
      simp only [hpc] at h
      split at h
      · rename_i henq
        obtain rfl := Option.some.inj h
        exact .reportFull hpc (Ring.enq_eq_none.mp henq)
      · rename_i henq
        obtain rfl := Option.some.inj h
        exact .report hpc (Ring.toList_enq henq)
  | stopped => simp [hpc] at h

theorem fires_of_step {label : Label} (h : s.step cfg label = some t) : Fires cfg s label t := by
  cases label with
  | scheduler => exact fires_of_scheduler h
  | worker puppet =>
      simp only [step, Option.ite_none_right_eq_some] at h
      exact fires_of_worker h.2
  | submit client txn =>
      simp only [step, pmhw_schedule] at h
      split at h
      · rename_i hidle
        exact Option.some.inj h ▸ .submit hidle
      · simp at h
  | client client =>
      simp only [step, pmhw_schedule_enq] at h
      split at h
      · simp at h
      · rename_i txn hpc
        split at h
        · rename_i henq
          obtain rfl := Option.some.inj h
          exact .putFull hpc (Ring.enq_eq_none.mp henq)
        · rename_i henq
          exact Option.some.inj h ▸ .put hpc (Ring.toList_enq henq)
  | shutdown =>
      simp only [step, Option.ite_none_right_eq_some, Option.some.injEq] at h
      exact h.2 ▸ .shutdown

end Scheduler

end Puppetmaster.Wrapper
