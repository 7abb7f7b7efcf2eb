import Puppetmaster.Library.Guard
import Puppetmaster.Library.Ring
import Puppetmaster.Wrapper.Txn

namespace Puppetmaster.Wrapper

open Library

-- pmhw_sim.c, with the threads of main.c that call it. One step is one queue operation,
-- one log call or one look at scheduler_running. An operation of a shared queue stands
-- at the atomic access it takes effect at: the store of its own index, or, when it is
-- refused, the load of the other one. active_txns belongs to the scheduler thread alone,
-- so the scan for a conflict is part of the step that peeks.

abbrev PuppetIndex := Fin MAX_PUPPETS
abbrev ClientIndex := Fin MAX_CLIENTS

-- The serial number counts the calls of pmhw_schedule and tells apart transactions with
-- equal ids. No step looks at it.
structure Job where
  serial : ℕ
  txn : Txn

structure Handle where
  serial : ℕ
  id : TxnId
  deriving DecidableEq

def Job.handle (job : Job) : Handle := ⟨job.serial, job.txn.id⟩

@[simp] theorem Job.handle_id (job : Job) : job.handle.id = job.txn.id := rfl

-- pmlog.h
inductive PmlogKind
  | SUBMIT | SCHED_READY | WORK_RECV | DONE | CLEANUP
  deriving DecidableEq

structure LogCall where
  handle : Handle
  kind : PmlogKind
  aux_data : BitVec 64
  deriving DecidableEq

-- Where scheduler_loop is, with the local variables it still reads.
inductive SchedulerPC
  | loopHead
  | drainDone (puppet : ℕ)
  | deqDone (puppet : PuppetIndex)
  | deqActive (puppet : PuppetIndex) (txn_id : Handle)
  | logCleanup (puppet : PuppetIndex) (txn_id : Handle)
  | drainPending (client : ℕ)
  | peekPending (client : ClientIndex)
  | deqPending (client : ClientIndex) (txn : Job)
  | enqActive (client : ClientIndex) (txn : Job)
  | logReady (client : ClientIndex) (txn : Job)
  | enqSched (client : ClientIndex) (txn : Job)
  | advance (client : ClientIndex)
  | stopped
  | failed

-- Where a puppet_thread is: in pmhw_poll_scheduled, between it and pmhw_report_done, or in
-- pmhw_report_done.
inductive WorkerPC
  | idle
  | polling
  | received (txn_id : Handle)
  | working (txn_id : Handle)
  | reporting (txn_id : Handle)
  | stopped

-- Where a client_thread is: between two calls of pmhw_schedule, or in one.
inductive ClientPC
  | idle
  | submitting (txn : Job)

structure Config where
  num_clients : ℕ
  num_puppets : ℕ
  num_clients_le : num_clients ≤ MAX_CLIENTS
  num_puppets_pos : 0 < num_puppets
  num_puppets_le : num_puppets ≤ MAX_PUPPETS

namespace Config

def puppet (cfg : Config) (puppet : ℕ) (h : puppet < cfg.num_puppets) : PuppetIndex :=
  ⟨puppet, h.trans_le cfg.num_puppets_le⟩

def client (cfg : Config) (client : ℕ) (h : client < cfg.num_clients) : ClientIndex :=
  ⟨client, h.trans_le cfg.num_clients_le⟩

-- (current_puppet_id + 1) % num_puppets
def nextPuppet (cfg : Config) (current : PuppetIndex) : PuppetIndex :=
  cfg.puppet ((current.val + 1) % cfg.num_puppets) (Nat.mod_lt _ cfg.num_puppets_pos)

end Config

structure Scheduler where
  pending_qs : ClientIndex → Ring Job MAX_PENDING_PER_CLIENT
  sched_qs : PuppetIndex → Ring Handle MAX_ACTIVE_PER_PUPPET
  done_qs : PuppetIndex → Ring Handle MAX_ACTIVE_PER_PUPPET
  active_txns : PuppetIndex → Ring Job MAX_ACTIVE_PER_PUPPET
  scheduler_running : Bool
  current_puppet_id : PuppetIndex
  pc : SchedulerPC
  workers : PuppetIndex → WorkerPC
  clients : ClientIndex → ClientPC
  -- the calls of pmlog_record so far, and the number of calls of pmhw_schedule
  log : List LogCall
  submitted : ℕ

namespace Scheduler

inductive Label
  | scheduler
  | worker (puppet : PuppetIndex)
  | submit (client : ClientIndex) (txn : Txn)
  | client (client : ClientIndex)
  | shutdown

-- pmhw_init; the buffers are fresh memory with arbitrary contents.
def init (jobs : ℕ → Job) (handles : ℕ → Handle) : Scheduler where
  pending_qs := fun _ => Ring.init jobs ⟨6, rfl⟩
  sched_qs := fun _ => Ring.init handles ⟨3, rfl⟩
  done_qs := fun _ => Ring.init handles ⟨3, rfl⟩
  active_txns := fun _ => Ring.init jobs ⟨3, rfl⟩
  scheduler_running := true
  current_puppet_id := 0
  pc := .loopHead
  workers := fun _ => .idle
  clients := fun _ => .idle
  log := []
  submitted := 0

def pmlog_record (s : Scheduler) (txn_id : Handle) (kind : PmlogKind) (aux_data : BitVec 64) :
    Scheduler :=
  { s with log := s.log ++ [⟨txn_id, kind, aux_data⟩] }

def conflicts_with_active (cfg : Config) (s : Scheduler) (new_txn : Txn) : Bool :=
  (List.finRange MAX_PUPPETS).any fun puppet =>
    decide (puppet.val < cfg.num_puppets) &&
      (s.active_txns puppet).scan (fun active => check_txn_conflict new_txn active.txn)
        MAX_ACTIVE_PER_PUPPET (s.active_txns puppet).head == some true

-- An ASSERT that does not hold leads to `failed`, where the program ends.
def scheduler_loop (cfg : Config) (s : Scheduler) : Option Scheduler :=
  match s.pc with
  | .loopHead => some { s with pc := if s.scheduler_running then .drainDone 0 else .stopped }
  | .drainDone puppet =>
      if h : puppet < cfg.num_puppets then
        if (s.active_txns (cfg.puppet puppet h)).isEmpty then
          some { s with pc := .drainDone (puppet + 1) }
        else some { s with pc := .deqDone (cfg.puppet puppet h) }
      else some { s with pc := .drainPending 0 }
  | .deqDone puppet =>
      match (s.done_qs puppet).deq with
      | none => some { s with pc := .drainDone (puppet.val + 1) }
      | some (txn_id, q) => some { s with
          done_qs := Function.update s.done_qs puppet q
          pc := .deqActive puppet txn_id }
  | .deqActive puppet txn_id =>
      match (s.active_txns puppet).deq with
      | none => some { s with pc := .failed }
      | some (txn, q) => some { s with
          active_txns := Function.update s.active_txns puppet q
          pc := if txn.txn.id = txn_id.id then .logCleanup puppet txn_id else .failed }
  | .logCleanup puppet txn_id =>
      some { s.pmlog_record txn_id .CLEANUP (-1) with pc := .deqDone puppet }
  | .drainPending client =>
      if h : client < cfg.num_clients then
        if (s.active_txns s.current_puppet_id).full then some { s with pc := .loopHead }
        else some { s with pc := .peekPending (cfg.client client h) }
      else some { s with pc := .loopHead }
  | .peekPending client =>
      match (s.pending_qs client).peek with
      | none => some { s with pc := .drainPending (client.val + 1) }
      | some txn =>
          if s.conflicts_with_active cfg txn.txn then
            some { s with pc := .drainPending (client.val + 1) }
          else some { s with pc := .deqPending client txn }
  | .deqPending client _ =>
      match (s.pending_qs client).deq with
      | none => some { s with pc := .failed }
      | some (txn, q) => some { s with
          pending_qs := Function.update s.pending_qs client q
          pc := .enqActive client txn }
  | .enqActive client txn =>
      match (s.active_txns s.current_puppet_id).enq txn with
      | none => some { s with pc := .failed }
      | some q => some { s with
          active_txns := Function.update s.active_txns s.current_puppet_id q
          pc := .logReady client txn }
  | .logReady client txn =>
      some { s.pmlog_record txn.handle .SCHED_READY (BitVec.ofNat 64 s.current_puppet_id.val) with
        pc := .enqSched client txn }
  | .enqSched client txn =>
      match (s.sched_qs s.current_puppet_id).enq txn.handle with
      | none => some { s with pc := .failed }
      | some q => some { s with
          sched_qs := Function.update s.sched_qs s.current_puppet_id q
          pc := .advance client }
  -- the inner loop ends when the next puppet has no room, and goes on with peek otherwise
  | .advance client => some { s with
      current_puppet_id := cfg.nextPuppet s.current_puppet_id
      pc := if (s.active_txns (cfg.nextPuppet s.current_puppet_id)).full then
          .drainPending (client.val + 1)
        else .peekPending client }
  | .stopped | .failed => none

def puppet_thread (s : Scheduler) (puppet : PuppetIndex) : Option Scheduler :=
  match s.workers puppet with
  -- pmhw_poll_scheduled
  | .idle => some { s with
      workers := Function.update s.workers puppet
        (if s.scheduler_running then .polling else .stopped) }
  | .polling =>
      match (s.sched_qs puppet).deq with
      | none => some { s with workers := Function.update s.workers puppet .idle }
      | some (txn_id, q) => some { s with
          sched_qs := Function.update s.sched_qs puppet q
          workers := Function.update s.workers puppet (.received txn_id) }
  | .received txn_id =>
      some { s.pmlog_record txn_id .WORK_RECV (BitVec.ofNat 64 puppet.val) with
        workers := Function.update s.workers puppet (.working txn_id) }
  -- pmhw_report_done
  | .working txn_id =>
      some { s.pmlog_record txn_id .DONE (BitVec.ofNat 64 puppet.val) with
        workers := Function.update s.workers puppet (.reporting txn_id) }
  | .reporting txn_id =>
      match (s.done_qs puppet).enq txn_id with
      | none => some s
      | some q => some { s with
          done_qs := Function.update s.done_qs puppet q
          workers := Function.update s.workers puppet .idle }
  | .stopped => none

-- pmhw_schedule: the log call, then the loop around the enqueue.
def pmhw_schedule (s : Scheduler) (client : ClientIndex) (txn : Txn) : Option Scheduler :=
  match s.clients client with
  | .idle => some { s.pmlog_record ⟨s.submitted, txn.id⟩ .SUBMIT (-1) with
      clients := Function.update s.clients client (.submitting ⟨s.submitted, txn⟩)
      submitted := s.submitted + 1 }
  | .submitting _ => none

def pmhw_schedule_enq (s : Scheduler) (client : ClientIndex) : Option Scheduler :=
  match s.clients client with
  | .idle => none
  | .submitting txn =>
      match (s.pending_qs client).enq txn with
      | none => some s
      | some q => some { s with
          pending_qs := Function.update s.pending_qs client q
          clients := Function.update s.clients client .idle }

-- main.c starts one puppet_thread for every puppet below num_puppets.
def step (cfg : Config) (s : Scheduler) : Label → Option Scheduler
  | .scheduler => s.scheduler_loop cfg
  | .worker puppet => if puppet.val < cfg.num_puppets then s.puppet_thread puppet else none
  | .submit client txn => s.pmhw_schedule client txn
  | .client client => s.pmhw_schedule_enq client
  | .shutdown => if s.scheduler_running then some { s with scheduler_running := false } else none

end Scheduler

end Puppetmaster.Wrapper
