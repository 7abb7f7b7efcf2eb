import Puppetmaster.Library.Inventory
import Puppetmaster.Library.Stages
import Puppetmaster.Wrapper.Scheduler.Pipeline
import Mathlib.Tactic.DeriveFintype

namespace Puppetmaster.Wrapper

open Library Library.Transition

namespace Scheduler

-- The kinds a transaction is logged with, in the order of pmlog.h.
def stages : List PmlogKind := [.SUBMIT, .SCHED_READY, .WORK_RECV, .DONE, .CLEANUP]

def logged (s : Scheduler) (serial : ℕ) : List PmlogKind :=
  history (Handle.serial ∘ LogCall.handle) LogCall.kind s.log serial

-- Every transaction submitted is with a client or in its queue, with a puppet or in its
-- queues, or in the hands of the scheduler thread, which has also cleaned up the others.
inductive Place
  | client (client : ClientIndex)
  | puppet (puppet : PuppetIndex)
  | scheduler
  deriving DecidableEq, Fintype

end Scheduler

-- The number of log calls behind a transaction, by where it is.

def Job.entered (n : ℕ) (txn : Job) : Handle × ℕ := (txn.handle, n)

def Handle.entered (n : ℕ) (txn_id : Handle) : Handle × ℕ := (txn_id, n)

def ClientPC.carried : ClientPC → List Job
  | .idle => []
  | .submitting txn => [txn]

def WorkerPC.entered : WorkerPC → List (Handle × ℕ)
  | .received txn_id => [txn_id.entered 2]
  | .working txn_id => [txn_id.entered 3]
  | .reporting txn_id => [txn_id.entered 4]
  | _ => []

def SchedulerPC.entered : SchedulerPC → List (Handle × ℕ)
  | .deqActive _ txn_id | .logCleanup _ txn_id => [txn_id.entered 4]
  | .enqActive _ txn | .logReady _ txn => [txn.entered 1]
  | .enqSched _ txn => [txn.entered 2]
  | _ => []

def LogCall.finished (call : LogCall) : Option (Handle × ℕ) :=
  if call.kind = .CLEANUP then some (call.handle.entered 5) else none

theorem SchedulerPC.entered_of_quiet {pc : SchedulerPC} (h : pc.quiet = true) :
    pc.entered = [] := by
  cases pc <;> first | rfl | exact absurd h (by simp [quiet])

theorem WorkerPC.entered_of_held {pc : WorkerPC} (h : pc.held = []) : pc.entered = [] := by
  cases pc <;> first | rfl | exact absurd h (by simp [held])

namespace Scheduler

def entered (s : Scheduler) : Place → List (Handle × ℕ)
  | .client client =>
      ((s.pending_qs client).toList ++ (s.clients client).carried).map (Job.entered 1)
  | .puppet puppet => (s.done_qs puppet).toList.map (Handle.entered 4) ++
      (s.workers puppet).entered ++ (s.sched_qs puppet).toList.map (Handle.entered 2)
  | .scheduler => trace LogCall.finished s.log ++ s.pc.entered

def Logged (s : Scheduler) : Prop :=
  Staged Handle.serial LogCall.handle LogCall.kind stages s.submitted (inventory s.entered) s.log

variable {cfg : Config} {s t : Scheduler}

theorem Logged.init (jobs : ℕ → Job) (handles : ℕ → Handle) :
    Logged (Scheduler.init jobs handles) := by
  have hempty : inventory (entered (Scheduler.init jobs handles)) = 0 :=
    inventory_eq_zero fun place => by
      cases place <;>
        simp [entered, trace, Scheduler.init, ClientPC.carried, WorkerPC.entered, SchedulerPC.entered]
  rw [Logged, hempty]
  exact Staged.init

-- A step without a log call keeps what every place holds, or moves it as it is.
theorem Logged.of_inventory (h : Logged s) (hlog : t.log = s.log)
    (hsubmitted : t.submitted = s.submitted)
    (hentered : inventory t.entered = inventory s.entered) : Logged t := by
  rw [Logged, hlog, hsubmitted, hentered]
  exact h

-- A log call takes one transaction, which stays in its place, to the next stage.
theorem Logged.of_call (h : Logged s) {call : LogCall} (place : Place) (n : ℕ) (rest : List (Handle × ℕ))
    (hlog : t.log = s.log ++ [call]) (hsubmitted : t.submitted = s.submitted)
    (hkind : stages[n]? = some call.kind)
    (hbefore : (s.entered place).Perm (call.handle.entered n :: rest))
    (hafter : (t.entered place).Perm (call.handle.entered (n + 1) :: rest))
    (hother : ∀ other, other ≠ place → t.entered other = s.entered other) : Logged t := by
  obtain ⟨others, hfrom, hto⟩ := inventory_exchange place hbefore hafter hother
  rw [Logged, hlog, hsubmitted, hto]
  exact Staged.advance h hfrom rfl hkind

theorem Logged.takeDone (h : Logged s) {puppet : PuppetIndex} {txn_id : Handle}
    {q : Ring Handle MAX_ACTIVE_PER_PUPPET} (hpc : s.pc = .deqDone puppet)
    (hdone : (s.done_qs puppet).toList = txn_id :: q.toList) :
    Logged { s with
      done_qs := Function.update s.done_qs puppet q
      pc := .deqActive puppet txn_id } := by
  refine h.of_inventory rfl rfl (inventory_transfer (.puppet puppet) .scheduler (txn_id.entered 4)
    (by simp) ?_ ?_ fun place hp hq => ?_)
  · simp only [entered, hdone, Function.update_self, List.map_cons, List.cons_append]
    exact .refl _
  · simp only [entered, hpc, SchedulerPC.entered, List.append_nil]
    exact List.perm_append_singleton _ _
  · cases place with
    | client client => rfl
    | puppet p =>
        have hne : p ≠ puppet := fun heq => hp (congrArg Place.puppet heq)
        simp only [entered, Function.update_of_ne hne]
    | scheduler => exact absurd rfl hq

theorem Logged.takePending (h : Logged s) {client : ClientIndex} {peeked txn : Job}
    {q : Ring Job MAX_PENDING_PER_CLIENT} (hpc : s.pc = .deqPending client peeked)
    (hpending : (s.pending_qs client).toList = txn :: q.toList) :
    Logged { s with
      pending_qs := Function.update s.pending_qs client q
      pc := .enqActive client txn } := by
  refine h.of_inventory rfl rfl (inventory_transfer (.client client) .scheduler (txn.entered 1)
    (by simp) ?_ ?_ fun place hp hq => ?_)
  · simp only [entered, hpending, Function.update_self, List.cons_append, List.map_cons]
    exact .refl _
  · simp only [entered, hpc, SchedulerPC.entered, List.append_nil]
    exact List.perm_append_singleton _ _
  · cases place with
    | client c =>
        have hne : c ≠ client := fun heq => hp (congrArg Place.client heq)
        simp only [entered, Function.update_of_ne hne]
    | puppet p => rfl
    | scheduler => exact absurd rfl hq

theorem Logged.dispatch (h : Logged s) {client : ClientIndex} {txn : Job}
    {q : Ring Handle MAX_ACTIVE_PER_PUPPET} (hpc : s.pc = .enqSched client txn)
    (hsched : q.toList = (s.sched_qs s.current_puppet_id).toList ++ [txn.handle]) :
    Logged { s with
      sched_qs := Function.update s.sched_qs s.current_puppet_id q
      pc := .advance client } := by
  refine h.of_inventory rfl rfl (inventory_transfer .scheduler (.puppet s.current_puppet_id)
    (txn.entered 2) (by simp) ?_ ?_ fun place hp hq => ?_)
  · simp only [entered, hpc, SchedulerPC.entered, List.append_nil]
    exact List.perm_append_singleton _ _
  · simp only [entered, hsched, Function.update_self, List.map_append, ← List.append_assoc]
    exact List.perm_append_singleton _ _
  · cases place with
    | client c => rfl
    | puppet p =>
        have hne : p ≠ s.current_puppet_id := fun heq => hq (congrArg Place.puppet heq)
        simp only [entered, Function.update_of_ne hne]
    | scheduler => exact absurd rfl hp

-- The scheduler thread moves on with the same transaction in its hands.
theorem Logged.of_pc (h : Logged s) {pc : SchedulerPC} (hentered : pc.entered = s.pc.entered)
    (active_txns : PuppetIndex → Ring Job MAX_ACTIVE_PER_PUPPET) (current_puppet_id : PuppetIndex) :
    Logged { s with
      pc := pc
      active_txns := active_txns
      current_puppet_id := current_puppet_id } := by
  refine h.of_inventory rfl rfl (inventory_congr fun place => ?_)
  cases place with
  | scheduler => simp only [entered, hentered]
  | _ => rfl

-- The places besides that of a worker.
theorem entered_of_worker {puppet : PuppetIndex} {place : Place} (hpending : t.pending_qs = s.pending_qs)
    (hclients : t.clients = s.clients) (hpc : t.pc = s.pc)
    (hlog : trace LogCall.finished t.log = trace LogCall.finished s.log)
    (hother : ∀ p, p ≠ puppet → t.done_qs p = s.done_qs p ∧ t.workers p = s.workers p ∧
      t.sched_qs p = s.sched_qs p) (h : place ≠ .puppet puppet) :
    t.entered place = s.entered place := by
  cases place with
  | client client => rw [entered, hpending, hclients, entered]
  | puppet p =>
      obtain ⟨hdone, hworkers, hsched⟩ := hother p fun heq => h (congrArg Place.puppet heq)
      rw [entered, hdone, hworkers, hsched, entered]
  | scheduler => rw [entered, hpc, hlog, entered]

theorem Logged.logCleanup (h : Logged s) {puppet : PuppetIndex} {txn_id : Handle}
    (hpc : s.pc = .logCleanup puppet txn_id) :
    Logged { s.pmlog_record txn_id .CLEANUP (-1) with pc := .deqDone puppet } := by
  refine h.of_call .scheduler 4 (trace LogCall.finished s.log) rfl rfl rfl ?_ ?_
    fun place hplace => ?_
  · simp only [entered, hpc, SchedulerPC.entered]
    exact List.perm_append_singleton _ _
  · simp only [entered, pmlog_record, SchedulerPC.entered, List.append_nil]
    rw [trace_snoc_some LogCall.finished s.log rfl]
    exact List.perm_append_singleton _ _
  · cases place with
    | scheduler => exact absurd rfl hplace
    | _ => rfl

theorem Logged.logReady (h : Logged s) {client : ClientIndex} {txn : Job}
    (hpc : s.pc = .logReady client txn) (aux_data : BitVec 64) :
    Logged { s.pmlog_record txn.handle .SCHED_READY aux_data with pc := .enqSched client txn } := by
  refine h.of_call .scheduler 1 (trace LogCall.finished s.log) rfl rfl rfl ?_ ?_
    fun place hplace => ?_
  · simp only [entered, hpc, SchedulerPC.entered]
    exact List.perm_append_singleton _ _
  · simp only [entered, pmlog_record, SchedulerPC.entered]
    rw [trace_snoc_none LogCall.finished s.log rfl]
    exact List.perm_append_singleton _ _
  · cases place with
    | scheduler => exact absurd rfl hplace
    | _ => rfl

theorem Logged.workerGoto (h : Logged s) {puppet : PuppetIndex} {pc : WorkerPC}
    (hentered : pc.entered = (s.workers puppet).entered) :
    Logged { s with workers := Function.update s.workers puppet pc } := by
  refine h.of_inventory rfl rfl (inventory_congr fun place => ?_)
  by_cases hplace : place = .puppet puppet
  · subst hplace
    simp only [entered, Function.update_self, hentered]
  · exact entered_of_worker rfl rfl rfl rfl (fun p hp => by simp [hp]) hplace

theorem Logged.poll (h : Logged s) {puppet : PuppetIndex} {txn_id : Handle}
    {q : Ring Handle MAX_ACTIVE_PER_PUPPET} (hpc : s.workers puppet = .polling)
    (hsched : (s.sched_qs puppet).toList = txn_id :: q.toList) :
    Logged { s with
      sched_qs := Function.update s.sched_qs puppet q
      workers := Function.update s.workers puppet (.received txn_id) } := by
  refine h.of_inventory rfl rfl (inventory_congr fun place => ?_)
  by_cases hplace : place = .puppet puppet
  · subst hplace
    simp only [entered, Function.update_self, hpc, hsched, WorkerPC.entered, List.map_cons,
      List.append_assoc, List.nil_append, List.singleton_append]
  · exact entered_of_worker rfl rfl rfl rfl (fun p hp => by simp [hp]) hplace

theorem Logged.report (h : Logged s) {puppet : PuppetIndex} {txn_id : Handle}
    {q : Ring Handle MAX_ACTIVE_PER_PUPPET} (hpc : s.workers puppet = .reporting txn_id)
    (hdone : q.toList = (s.done_qs puppet).toList ++ [txn_id]) :
    Logged { s with
      done_qs := Function.update s.done_qs puppet q
      workers := Function.update s.workers puppet .idle } := by
  refine h.of_inventory rfl rfl (inventory_congr fun place => ?_)
  by_cases hplace : place = .puppet puppet
  · subst hplace
    simp only [entered, Function.update_self, hpc, hdone, WorkerPC.entered, List.map_append,
      List.map_cons, List.map_nil, List.append_nil]
  · exact entered_of_worker rfl rfl rfl rfl (fun p hp => by simp [hp]) hplace

-- WORK_RECV and DONE
theorem Logged.workerCall (h : Logged s) {puppet : PuppetIndex} {pc : WorkerPC} {n : ℕ}
    {call : LogCall} (hkind : stages[n]? = some call.kind) (hopen : call.kind ≠ .CLEANUP)
    (hbefore : (s.workers puppet).entered = [call.handle.entered n])
    (hafter : pc.entered = [call.handle.entered (n + 1)]) :
    Logged { s with
      log := s.log ++ [call]
      workers := Function.update s.workers puppet pc } := by
  have hfinished : call.finished = none := if_neg hopen
  refine h.of_call (.puppet puppet) n ((s.done_qs puppet).toList.map (Handle.entered 4) ++
    (s.sched_qs puppet).toList.map (Handle.entered 2)) rfl rfl hkind ?_ ?_ fun place hplace => ?_
  · simp only [entered, hbefore, List.append_assoc]
    exact List.perm_middle
  · simp only [entered, Function.update_self, hafter, List.append_assoc]
    exact List.perm_middle
  · exact entered_of_worker rfl rfl rfl (trace_snoc_none LogCall.finished s.log hfinished)
      (fun p hp => by simp [hp]) hplace

theorem Logged.submit (h : Logged s) {client : ClientIndex} {txn : Txn}
    (hidle : s.clients client = .idle) :
    Logged { s.pmlog_record ⟨s.submitted, txn.id⟩ .SUBMIT (-1) with
      clients := Function.update s.clients client (.submitting ⟨s.submitted, txn⟩)
      submitted := s.submitted + 1 } := by
  have hgain : inventory (entered { s.pmlog_record ⟨s.submitted, txn.id⟩ .SUBMIT (-1) with
      clients := Function.update s.clients client (.submitting ⟨s.submitted, txn⟩)
      submitted := s.submitted + 1 }) = (⟨s.submitted, txn.id⟩, 1) ::ₘ inventory s.entered := by
    refine inventory_gain (.client client) ?_ fun place hplace => ?_
    · simp only [entered, pmlog_record, hidle, Function.update_self, ClientPC.carried,
        List.map_append, List.map_cons, List.map_nil, List.append_nil]
      exact List.perm_append_singleton _ _
    · cases place with
      | client c =>
          have hne : c ≠ client := fun heq => hplace (congrArg Place.client heq)
          simp only [entered, pmlog_record, Function.update_of_ne hne]
      | puppet p => rfl
      | scheduler =>
          simp only [entered, pmlog_record]
          rw [trace_snoc_none LogCall.finished s.log rfl]
  rw [Logged, hgain]
  exact Staged.fresh h rfl rfl rfl

theorem Logged.put (h : Logged s) {client : ClientIndex} {txn : Job}
    {q : Ring Job MAX_PENDING_PER_CLIENT} (hpc : s.clients client = .submitting txn)
    (hpending : q.toList = (s.pending_qs client).toList ++ [txn]) :
    Logged { s with
      pending_qs := Function.update s.pending_qs client q
      clients := Function.update s.clients client .idle } := by
  refine h.of_inventory rfl rfl (inventory_congr fun place => ?_)
  cases place with
  | client c =>
      by_cases hc : c = client
      · subst hc
        simp only [entered, Function.update_self, hpc, hpending, ClientPC.carried, List.append_nil]
      · simp only [entered, Function.update_of_ne hc]
  | _ => rfl

theorem Logged.step {label : Label} (ho : Orderly cfg s) (h : Logged s)
    (hfires : Fires cfg s label t) : Logged t := by
  have hnext := ho.step hfires
  cases hfires with
  | goto hquiet hquiet' =>
      exact h.of_pc (by rw [SchedulerPC.entered_of_quiet hquiet,
        SchedulerPC.entered_of_quiet hquiet']) _ _
  | takeDone hpc hdone => exact h.takeDone hpc hdone
  | lostActive => exact absurd rfl hnext.not_failed
  | removeActive hpc hactive =>
      obtain ⟨rfl, -⟩ := ho.removed_eq hpc hactive
      exact h.of_pc (by rw [hpc, Job.handle_id, if_pos rfl]; rfl) _ _
  | logCleanup hpc => exact h.logCleanup hpc
  | lostPending => exact absurd rfl hnext.not_failed
  | takePending hpc hpending => exact h.takePending hpc hpending
  | fullActive => exact absurd rfl hnext.not_failed
  | putActive hpc hactive => exact h.of_pc (by rw [hpc]; rfl) _ _
  | logReady hpc => exact h.logReady hpc _
  | fullSched => exact absurd rfl hnext.not_failed
  | dispatch hpc hsched => exact h.dispatch hpc hsched
  | advance hpc => exact h.of_pc (by rw [hpc]; split <;> rfl) _ _
  | workerGoto hheld hheld' =>
      exact h.workerGoto (by rw [WorkerPC.entered_of_held hheld, WorkerPC.entered_of_held hheld'])
  | poll hpc hsched => exact h.poll hpc hsched
  | logRecv hpc => exact h.workerCall (n := 2) rfl (by simp) (by rw [hpc]; rfl) rfl
  | logDone hpc => exact h.workerCall (n := 3) rfl (by simp) (by rw [hpc]; rfl) rfl
  | reportFull => exact h
  | report hpc hdone => exact h.report hpc hdone
  | submit hidle => exact h.submit hidle
  | put hpc hpending => exact h.put hpc hpending
  | putFull => exact h
  | shutdown => exact h.of_inventory rfl rfl (inventory_congr fun place => by cases place <;> rfl)

theorem Logged.run {labels : List Label} {jobs : ℕ → Job} {handles : ℕ → Handle}
    (hrun : Run (Of (Scheduler.step cfg)) (Scheduler.init jobs handles) labels s) : Logged s := by
  have hboth : Orderly cfg s ∧ Logged s :=
    hrun.invariant (fun s => Orderly cfg s ∧ Logged s)
      ⟨Orderly.init cfg jobs handles, Logged.init jobs handles⟩ fun _ _ _ h hstep =>
        ⟨h.1.step (fires_of_step hstep), h.2.step h.1 (fires_of_step hstep)⟩
  exact hboth.2

-- What a run of the scheduler shows of its queues and of its log.
structure ExactlyOnce (s : Scheduler) : Prop where
  in_order : ∀ p, (s.active_txns p).toList.map Job.handle = s.pc.cleaning p ++
    ((s.done_qs p).toList ++ (s.workers p).held ++ (s.sched_qs p).toList) ++ s.admitting p
  not_failed : s.pc ≠ .failed
  report_room : ∀ p txn_id, s.workers p = .reporting txn_id →
    ((s.done_qs p).enq txn_id).isSome = true
  logged : ∀ serial, s.logged serial <+: stages
  same_id : ∀ a ∈ s.log, ∀ b ∈ s.log, a.handle.serial = b.handle.serial → a.handle = b.handle

theorem exactly_once {labels : List Label} {jobs : ℕ → Job} {handles : ℕ → Handle}
    (hrun : Run (Of (Scheduler.step cfg)) (Scheduler.init jobs handles) labels s) :
    ExactlyOnce s where
  in_order := (Orderly.run hrun).in_order
  not_failed := (Orderly.run hrun).not_failed
  report_room p txn_id hpc := by
    have hroom := (Orderly.run hrun).done_not_full hpc
    rw [Option.isSome_iff_ne_none, ne_eq, Ring.enq_eq_none, hroom]
    exact Bool.false_ne_true
  logged := Staged.history_prefix (Logged.run hrun)
  same_id _ ha _ hb := Staged.key_eq (Logged.run hrun) ha hb

-- Two of the transactions are removed, and the third one is at work.
theorem exactly_once_overlapping :
    ∃ s, Run (Of (step twoPuppets)) initState overlappingRun s ∧ s.logged 0 = stages ∧
      s.logged 1 = stages ∧ s.logged 2 = [.SUBMIT, .SCHED_READY, .WORK_RECV] ∧ ExactlyOnce s := by
  have hexec : (exec (step twoPuppets) initState overlappingRun).any (fun s => s.logged 0 = stages ∧
      s.logged 1 = stages ∧ s.logged 2 = [.SUBMIT, .SCHED_READY, .WORK_RECV]) = true := by
    decide +kernel
  obtain ⟨s, hs, hlogged⟩ := (Option.any_eq_true _ _).mp hexec
  obtain ⟨hzero, hone, htwo⟩ := of_decide_eq_true hlogged
  exact ⟨s, run_of_exec hs, hzero, hone, htwo, exactly_once (run_of_exec hs)⟩

end Scheduler

end Puppetmaster.Wrapper
