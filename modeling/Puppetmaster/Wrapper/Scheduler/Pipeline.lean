import Puppetmaster.Library.Apart
import Puppetmaster.Library.Transition
import Puppetmaster.Wrapper.Scheduler.Rules

namespace Puppetmaster.Wrapper

open Library Library.Transition

-- The id taken from the done queue of a puppet whose transaction is still active.
def SchedulerPC.cleaning : SchedulerPC → PuppetIndex → List Handle
  | .deqActive puppet txn_id, p => if puppet = p then [txn_id] else []
  | _, _ => []

-- The transaction that is active but not yet in the sched queue.
def SchedulerPC.admitted : SchedulerPC → List Handle
  | .logReady _ txn | .enqSched _ txn => [txn.handle]
  | _ => []

theorem SchedulerPC.cleaning_of_quiet {pc : SchedulerPC} (h : pc.quiet = true) (p : PuppetIndex) :
    pc.cleaning p = [] := by
  cases pc <;> first | rfl | exact absurd h (by simp [quiet])

theorem SchedulerPC.admitted_of_quiet {pc : SchedulerPC} (h : pc.quiet = true) :
    pc.admitted = [] := by
  cases pc <;> first | rfl | exact absurd h (by simp [quiet])

namespace Scheduler

def activeIds (s : Scheduler) (p : PuppetIndex) : List Handle :=
  (s.active_txns p).toList.map Job.handle

def admitting (s : Scheduler) (p : PuppetIndex) : List Handle :=
  if s.current_puppet_id = p then s.pc.admitted else []

-- The ids on their way to puppet `p`, with it, and back from it, oldest first.
def inFlight (s : Scheduler) (p : PuppetIndex) : List Handle :=
  (s.done_qs p).toList ++ (s.workers p).held ++ (s.sched_qs p).toList

-- The same with what the scheduler thread has between two queue operations.
def pipeline (s : Scheduler) (p : PuppetIndex) : List Handle :=
  s.pc.cleaning p ++ s.inFlight p ++ s.admitting p

def Compatible (a b : Job) : Prop := check_txn_conflict a.txn b.txn = false

theorem Compatible.symm {a b : Job} (h : Compatible a b) : Compatible b a := by
  rw [Compatible, check_txn_conflict_comm]
  exact h

theorem admitting_of_quiet {s : Scheduler} (h : s.pc.quiet = true) (p : PuppetIndex) :
    s.admitting p = [] := by
  rw [admitting, SchedulerPC.admitted_of_quiet h, ite_self]

theorem pipeline_of_quiet {s : Scheduler} (h : s.pc.quiet = true) (p : PuppetIndex) :
    s.pipeline p = s.inFlight p := by
  rw [pipeline, SchedulerPC.cleaning_of_quiet h, admitting_of_quiet h, List.nil_append,
    List.append_nil]

structure Orderly (cfg : Config) (s : Scheduler) : Prop where
  current_lt : s.current_puppet_id.val < cfg.num_puppets
  unused : ∀ p : PuppetIndex, cfg.num_puppets ≤ p.val → (s.active_txns p).toList = []
  in_order : ∀ p, s.activeIds p = s.pipeline p
  ready : s.Ready cfg s.pc
  apart : Apart Compatible fun p => (s.active_txns p).toList
  not_failed : s.pc ≠ .failed

variable {cfg : Config} {s t : Scheduler}

theorem Orderly.init (cfg : Config) (jobs : ℕ → Job) (handles : ℕ → Handle) :
    Orderly cfg (Scheduler.init jobs handles) where
  current_lt := cfg.num_puppets_pos
  unused _ _ := Ring.toList_init _ _
  in_order p := by
    rw [pipeline_of_quiet rfl]
    simp [activeIds, inFlight, Scheduler.init, WorkerPC.held]
  ready := trivial
  apart := Apart.of_empty fun _ => Ring.toList_init _ _
  not_failed := by simp [Scheduler.init]

-- The queue of an active list holds at most seven entries.
theorem Orderly.length_lt (h : Orderly cfg s) (p : PuppetIndex) :
    (s.pipeline p).length < MAX_ACTIVE_PER_PUPPET := by
  rw [← h.in_order p, activeIds, List.length_map, Ring.length_toList]
  exact Ring.length_lt _

theorem Orderly.done_not_full (h : Orderly cfg s) {p : PuppetIndex} {txn_id : Handle}
    (hpc : s.workers p = .reporting txn_id) : (s.done_qs p).full = false := by
  have hlen := h.length_lt p
  simp only [pipeline, inFlight, hpc, WorkerPC.held, List.length_append,
    List.length_singleton] at hlen
  rw [Bool.eq_false_iff, ne_eq, Ring.full_iff]
  omega

theorem Orderly.sched_not_full (h : Orderly cfg s) {client : ClientIndex} {txn : Job}
    (hpc : s.pc = .enqSched client txn) : (s.sched_qs s.current_puppet_id).full = false := by
  have hlen := h.length_lt s.current_puppet_id
  simp only [pipeline, inFlight, admitting, hpc, SchedulerPC.admitted, if_true,
    List.length_append, List.length_singleton] at hlen
  rw [Bool.eq_false_iff, ne_eq, Ring.full_iff]
  omega

-- The oldest active transaction of a puppet is the one whose id its done queue gave.
theorem Orderly.head_eq (h : Orderly cfg s) {p : PuppetIndex} {txn_id : Handle}
    (hpc : s.pc = .deqActive p txn_id) :
    s.activeIds p = txn_id :: (s.inFlight p ++ s.admitting p) := by
  rw [h.in_order p, pipeline, hpc, SchedulerPC.cleaning, if_pos rfl]
  rfl

theorem Ready.congr {pc : SchedulerPC} (h : s.Ready cfg pc)
    (hcurrent : t.current_puppet_id = s.current_puppet_id)
    (hactive : t.active_txns = s.active_txns)
    (hpending : ∀ client txn, (s.pending_qs client).toList.head? = some txn →
      (t.pending_qs client).toList.head? = some txn) : t.Ready cfg pc := by
  have hclear : ∀ txn, s.Clear cfg txn → t.Clear cfg txn := fun txn h => by
    rw [Clear, hactive]
    exact h
  cases pc with
  | peekPending client => rw [Ready, hcurrent, hactive]; exact h
  | deqPending client txn =>
      rw [Ready, hcurrent, hactive]
      exact ⟨h.1, hpending client txn h.2.1, hclear _ h.2.2⟩
  | enqActive client txn =>
      rw [Ready, hcurrent, hactive]
      exact ⟨h.1, hclear _ h.2⟩
  | _ => trivial

theorem Orderly.removed_eq (h : Orderly cfg s) {p : PuppetIndex} {txn_id : Handle} {txn : Job}
    {rest : List Job} (hpc : s.pc = .deqActive p txn_id)
    (hactive : (s.active_txns p).toList = txn :: rest) :
    txn.handle = txn_id ∧ rest.map Job.handle = s.inFlight p ++ s.admitting p := by
  have hhead := h.head_eq hpc
  rw [activeIds, hactive, List.map_cons] at hhead
  exact List.cons.inj hhead

-- What is left to show of a step that changes neither the active lists nor the current
-- puppet.
theorem Orderly.keep (h : Orderly cfg s) (hcurrent : t.current_puppet_id = s.current_puppet_id)
    (hactive : t.active_txns = s.active_txns) (hin : ∀ p, t.pipeline p = s.pipeline p)
    (hready : t.Ready cfg t.pc) (hfailed : t.pc ≠ .failed) : Orderly cfg t where
  current_lt := hcurrent ▸ h.current_lt
  unused p hp := by rw [hactive]; exact h.unused p hp
  in_order p := by rw [hin p, activeIds, hactive]; exact h.in_order p
  ready := hready
  apart := by rw [hactive]; exact h.apart
  not_failed := hfailed

-- A step of a client or a worker, or the shutdown.
theorem Orderly.of_other (h : Orderly cfg s) (hcurrent : t.current_puppet_id = s.current_puppet_id)
    (hpc : t.pc = s.pc) (hactive : t.active_txns = s.active_txns)
    (hpending : ∀ client txn, (s.pending_qs client).toList.head? = some txn →
      (t.pending_qs client).toList.head? = some txn)
    (hflight : ∀ p, t.inFlight p = s.inFlight p) : Orderly cfg t := by
  refine h.keep hcurrent hactive (fun p => ?_) ?_ (hpc ▸ h.not_failed)
  · rw [pipeline, pipeline, admitting, admitting, hpc, hcurrent, hflight p]
  · exact hpc ▸ h.ready.congr hcurrent hactive hpending

theorem Orderly.goto (h : Orderly cfg s) {pc : SchedulerPC} (hquiet : s.pc.quiet = true)
    (hquiet' : pc.quiet = true) (hfailed : pc ≠ .failed)
    (hready : s.Ready cfg s.pc → s.Ready cfg pc) : Orderly cfg { s with pc := pc } := by
  refine h.keep rfl rfl (fun p => ?_) ?_ hfailed
  · rw [pipeline_of_quiet hquiet, pipeline_of_quiet hquiet']
    rfl
  · exact (hready h.ready).congr rfl rfl fun _ _ h => h

theorem Orderly.takeDone (h : Orderly cfg s) {puppet : PuppetIndex} {txn_id : Handle}
    {q : Ring Handle MAX_ACTIVE_PER_PUPPET} (hpc : s.pc = .deqDone puppet)
    (hdone : (s.done_qs puppet).toList = txn_id :: q.toList) :
    Orderly cfg { s with
      done_qs := Function.update s.done_qs puppet q
      pc := .deqActive puppet txn_id } := by
  refine h.keep rfl rfl (fun p => ?_) trivial (by simp)
  simp only [pipeline, inFlight, admitting, hpc, SchedulerPC.cleaning, SchedulerPC.admitted]
  by_cases hp : puppet = p
  · subst hp
    rw [if_pos rfl, Function.update_self, hdone]
    rfl
  · rw [if_neg hp, Function.update_of_ne (Ne.symm hp)]

theorem Orderly.removeActive (h : Orderly cfg s) {puppet : PuppetIndex} {txn_id : Handle}
    {txn : Job} {q : Ring Job MAX_ACTIVE_PER_PUPPET} (hpc : s.pc = .deqActive puppet txn_id)
    (hactive : (s.active_txns puppet).toList = txn :: q.toList) :
    Orderly cfg { s with
      active_txns := Function.update s.active_txns puppet q
      pc := if txn.txn.id = txn_id.id then .logCleanup puppet txn_id else .failed } := by
  obtain ⟨rfl, hrest⟩ := h.removed_eq hpc hactive
  rw [Job.handle_id, if_pos rfl]
  have hsub : ∀ p, (Function.update s.active_txns puppet q p).toList.Sublist
      (s.active_txns p).toList := by
    intro p
    by_cases hp : p = puppet
    · subst hp
      rw [Function.update_self, hactive]
      exact List.sublist_cons_self _ _
    · rw [Function.update_of_ne hp]
  refine ⟨h.current_lt, fun p hp => ?_, fun p => ?_, trivial, h.apart.shrink hsub, by simp⟩
  · exact List.sublist_nil.mp (h.unused p hp ▸ hsub p)
  · have hin := h.in_order p
    simp only [pipeline, admitting, activeIds, hpc, SchedulerPC.cleaning,
      SchedulerPC.admitted] at hin hrest ⊢
    by_cases hp : puppet = p
    · subst hp
      rw [Function.update_self]
      exact hrest
    · rw [Function.update_of_ne (Ne.symm hp)]
      rw [if_neg hp] at hin
      exact hin

theorem Orderly.logCleanup (h : Orderly cfg s) {puppet : PuppetIndex} {txn_id : Handle}
    (hpc : s.pc = .logCleanup puppet txn_id) :
    Orderly cfg { s.pmlog_record txn_id .CLEANUP (-1) with pc := .deqDone puppet } := by
  refine h.keep rfl rfl (fun p => ?_) trivial (by simp)
  rw [pipeline, pipeline, admitting, admitting, hpc]
  rfl

theorem Orderly.takePending (h : Orderly cfg s) {client : ClientIndex} {peeked txn : Job}
    {q : Ring Job MAX_PENDING_PER_CLIENT} (hpc : s.pc = .deqPending client peeked)
    (hpending : (s.pending_qs client).toList = txn :: q.toList) :
    Orderly cfg { s with
      pending_qs := Function.update s.pending_qs client q
      pc := .enqActive client txn } := by
  refine h.keep rfl rfl (fun p => ?_) ?_ (by simp)
  · rw [pipeline, pipeline, admitting, admitting, hpc]
    rfl
  · have hready := h.ready
    rw [hpc] at hready
    obtain ⟨hroom, hhead, hclear⟩ := hready
    rw [hpending, List.head?_cons, Option.some.injEq] at hhead
    exact ⟨hroom, hhead ▸ hclear⟩

-- The transaction admitted was compared with every active transaction.
theorem Orderly.putActive (h : Orderly cfg s) {client : ClientIndex} {txn : Job}
    {q : Ring Job MAX_ACTIVE_PER_PUPPET} (hpc : s.pc = .enqActive client txn)
    (hactive : q.toList = (s.active_txns s.current_puppet_id).toList ++ [txn]) :
    Orderly cfg { s with
      active_txns := Function.update s.active_txns s.current_puppet_id q
      pc := .logReady client txn } where
  current_lt := h.current_lt
  unused p hp := by
    have hne : p ≠ s.current_puppet_id := by
      rintro rfl
      exact absurd h.current_lt (Nat.not_lt.mpr hp)
    simpa only [Function.update_of_ne hne] using h.unused p hp
  in_order p := by
    have hin := h.in_order p
    simp only [pipeline, inFlight, admitting, activeIds, hpc, SchedulerPC.cleaning,
      SchedulerPC.admitted, ite_self, List.append_nil] at hin ⊢
    by_cases hp : s.current_puppet_id = p
    · subst hp
      rw [Function.update_self, hactive, List.map_append, hin, if_pos rfl]
      rfl
    · rw [Function.update_of_ne (Ne.symm hp), if_neg hp, List.append_nil]
      exact hin
  ready := trivial
  apart := by
    have hready := h.ready
    rw [hpc] at hready
    refine h.apart.append (fun _ _ => Compatible.symm) s.current_puppet_id txn ?_ ?_ ?_
    · simp only [Function.update_self, hactive]
    · intro p hp
      simp only [Function.update_of_ne hp]
    · intro p active hmem
      by_cases hp : p.val < cfg.num_puppets
      · exact Compatible.symm (hready.2 p hp active hmem)
      · rw [h.unused p (Nat.not_lt.mp hp)] at hmem
        exact absurd hmem List.not_mem_nil
  not_failed := by simp

theorem Orderly.logReady (h : Orderly cfg s) {client : ClientIndex} {txn : Job}
    (hpc : s.pc = .logReady client txn) (aux_data : BitVec 64) :
    Orderly cfg { s.pmlog_record txn.handle .SCHED_READY aux_data with
      pc := .enqSched client txn } := by
  refine h.keep rfl rfl (fun p => ?_) trivial (by simp)
  rw [pipeline, pipeline, admitting, admitting, hpc]
  rfl

theorem Orderly.dispatch (h : Orderly cfg s) {client : ClientIndex} {txn : Job}
    {q : Ring Handle MAX_ACTIVE_PER_PUPPET} (hpc : s.pc = .enqSched client txn)
    (hsched : q.toList = (s.sched_qs s.current_puppet_id).toList ++ [txn.handle]) :
    Orderly cfg { s with
      sched_qs := Function.update s.sched_qs s.current_puppet_id q
      pc := .advance client } := by
  refine h.keep rfl rfl (fun p => ?_) trivial (by simp)
  rw [pipeline_of_quiet rfl]
  simp only [pipeline, inFlight, admitting, hpc, SchedulerPC.cleaning, SchedulerPC.admitted,
    List.nil_append]
  by_cases hp : s.current_puppet_id = p
  · subst hp
    rw [Function.update_self, hsched, if_pos rfl, List.append_assoc _ _ [_]]
  · rw [Function.update_of_ne (Ne.symm hp), if_neg hp, List.append_nil]

theorem Orderly.advance (h : Orderly cfg s) {client : ClientIndex} (hpc : s.pc = .advance client) :
    Orderly cfg { s with
      current_puppet_id := cfg.nextPuppet s.current_puppet_id
      pc := if (s.active_txns (cfg.nextPuppet s.current_puppet_id)).full then
          .drainPending (client.val + 1)
        else .peekPending client } := by
  have hin : ∀ p, s.activeIds p = s.inFlight p := fun p => by
    rw [h.in_order p, pipeline_of_quiet (by rw [hpc]; rfl)]
  have hnext : (cfg.nextPuppet s.current_puppet_id).val < cfg.num_puppets :=
    Nat.mod_lt _ cfg.num_puppets_pos
  split_ifs with hfull
  · refine ⟨hnext, h.unused, fun p => ?_, trivial, h.apart, by simp⟩
    rw [pipeline_of_quiet rfl]
    exact hin p
  · refine ⟨hnext, h.unused, fun p => ?_, Bool.eq_false_iff.mpr hfull, h.apart, by simp⟩
    rw [pipeline_of_quiet rfl]
    exact hin p

-- A step of a worker only moves ids forward in its own part of the pipeline.
theorem Orderly.of_worker (h : Orderly cfg s) (puppet : PuppetIndex)
    (hcurrent : t.current_puppet_id = s.current_puppet_id) (hpc : t.pc = s.pc)
    (hactive : t.active_txns = s.active_txns) (hpending : t.pending_qs = s.pending_qs)
    (hself : t.inFlight puppet = s.inFlight puppet)
    (hother : ∀ p, p ≠ puppet → t.inFlight p = s.inFlight p) : Orderly cfg t := by
  refine h.of_other hcurrent hpc hactive (fun _ _ h => by rwa [hpending]) fun p => ?_
  by_cases hp : p = puppet
  · subst hp
    exact hself
  · exact hother p hp

theorem Orderly.step {label : Label} (h : Orderly cfg s) (hfires : Fires cfg s label t) :
    Orderly cfg t := by
  cases hfires with
  | goto hquiet hquiet' hfailed hready => exact h.goto hquiet hquiet' hfailed hready
  | takeDone hpc hdone => exact h.takeDone hpc hdone
  | lostActive hpc hactive =>
      have hhead := h.head_eq hpc
      rw [activeIds, hactive] at hhead
      exact absurd hhead (by simp)
  | removeActive hpc hactive => exact h.removeActive hpc hactive
  | logCleanup hpc => exact h.logCleanup hpc
  | lostPending hpc hpending =>
      have hready := h.ready
      rw [hpc] at hready
      exact absurd hready.2.1 (by simp [hpending])
  | takePending hpc hpending => exact h.takePending hpc hpending
  | fullActive hpc hfull =>
      have hready := h.ready
      rw [hpc] at hready
      exact absurd hfull (by simp [hready.1])
  | putActive hpc hactive => exact h.putActive hpc hactive
  | logReady hpc => exact h.logReady hpc _
  | fullSched hpc hfull => exact absurd hfull (by simp [h.sched_not_full hpc])
  | dispatch hpc hsched => exact h.dispatch hpc hsched
  | advance hpc => exact h.advance hpc
  | @workerGoto puppet pc hheld hheld' =>
      refine h.of_worker puppet rfl rfl rfl rfl ?_ fun p hp => ?_
      · simp only [inFlight, Function.update_self, hheld, hheld']
      · simp only [inFlight, Function.update_of_ne hp]
  | @poll puppet txn_id q hpc hsched =>
      refine h.of_worker puppet rfl rfl rfl rfl ?_ fun p hp => ?_
      · simp only [inFlight, Function.update_self, hpc, hsched, WorkerPC.held, List.append_assoc,
          List.nil_append, List.singleton_append]
      · simp only [inFlight, Function.update_of_ne hp]
  | @logRecv puppet txn_id hpc =>
      refine h.of_worker puppet rfl rfl rfl rfl ?_ fun p hp => ?_
      · simp only [inFlight, pmlog_record, Function.update_self, hpc, WorkerPC.held]
      · simp only [inFlight, pmlog_record, Function.update_of_ne hp]
  | @logDone puppet txn_id hpc =>
      refine h.of_worker puppet rfl rfl rfl rfl ?_ fun p hp => ?_
      · simp only [inFlight, pmlog_record, Function.update_self, hpc, WorkerPC.held]
      · simp only [inFlight, pmlog_record, Function.update_of_ne hp]
  | reportFull hpc hfull => exact h
  | @report puppet txn_id q hpc hdone =>
      refine h.of_worker puppet rfl rfl rfl rfl ?_ fun p hp => ?_
      · simp only [inFlight, Function.update_self, hpc, hdone, WorkerPC.held, List.append_nil]
      · simp only [inFlight, Function.update_of_ne hp]
  | submit hidle => exact h.of_other rfl rfl rfl (fun _ _ h => h) fun _ => rfl
  | @put client txn q hpc hpending =>
      refine h.of_other rfl rfl rfl (fun c job hhead => ?_) fun _ => rfl
      by_cases hc : c = client
      · subst hc
        simp only [Function.update_self, hpending, List.head?_append, hhead, Option.some_or]
      · simpa only [Function.update_of_ne hc] using hhead
  | putFull hpc hfull => exact h
  | shutdown => exact h.of_other rfl rfl rfl (fun _ _ h => h) fun _ => rfl

theorem Orderly.run {labels : List Label} {jobs : ℕ → Job} {handles : ℕ → Handle}
    (hrun : Run (Of (Scheduler.step cfg)) (Scheduler.init jobs handles) labels s) :
    Orderly cfg s :=
  hrun.invariant (Orderly cfg) (Orderly.init cfg jobs handles) fun _ _ _ h hstep =>
    h.step (fires_of_step hstep)

-- No two active transactions conflict, and a transaction whose id is on its way to a worker,
-- with it, or on its way back is active.
theorem active_txns_never_conflict {labels : List Label} {jobs : ℕ → Job} {handles : ℕ → Handle}
    (hrun : Run (Of (Scheduler.step cfg)) (Scheduler.init jobs handles) labels s) :
    Apart (fun a b => check_txn_conflict a.txn b.txn = false) (fun p => (s.active_txns p).toList) ∧
      ∀ p txn_id, txn_id ∈ (s.sched_qs p).toList ∨ txn_id ∈ (s.workers p).held ∨
          txn_id ∈ (s.done_qs p).toList →
        ∃ txn ∈ (s.active_txns p).toList, txn.handle = txn_id := by
  have h := Orderly.run hrun
  refine ⟨h.apart, fun p txn_id hmem => List.mem_map.mp ?_⟩
  have hflight : txn_id ∈ s.inFlight p := by
    simp only [inFlight, List.mem_append]
    tauto
  rw [← activeIds, h.in_order p, pipeline]
  simp only [List.mem_append]
  exact Or.inl (Or.inr hflight)

theorem one_le_max_clients : 1 ≤ MAX_CLIENTS := by decide

theorem two_le_max_puppets : 2 ≤ MAX_PUPPETS := by decide

def twoPuppets : Config where
  num_clients := 1
  num_puppets := 2
  num_clients_le := one_le_max_clients
  num_puppets_pos := Nat.two_pos
  num_puppets_le := two_le_max_puppets

def initState : Scheduler := init (fun _ => ⟨0, .writing 7 1⟩) fun _ => ⟨0, 0⟩

-- The first two transactions overlap; the third one waits for the first one.
def overlappingRun : List Label :=
  [.submit 0 (.writing 0 1), .client 0, .submit 0 (.writing 1 2), .client 0,
    .submit 0 (.writing 2 1), .client 0] ++ List.replicate 16 .scheduler ++
  List.replicate 3 (.worker 0) ++ List.replicate 5 (.worker 1) ++ List.replicate 2 (.worker 0) ++
  List.replicate 26 .scheduler ++ List.replicate 3 (.worker 0)

-- The first one is received and the second one reported; both are active.
def activeRun : List Label := overlappingRun.take 30

theorem active_txns_never_conflict_overlapping :
    ∃ s, Run (Of (step twoPuppets)) initState activeRun s ∧
      (s.workers 0).held = [⟨0, 0⟩] ∧ (s.done_qs 1).toList = [⟨1, 1⟩] ∧
      Apart (fun a b => check_txn_conflict a.txn b.txn = false) (fun p => (s.active_txns p).toList) ∧
      (∃ txn ∈ (s.active_txns 0).toList, txn.handle = ⟨0, 0⟩) ∧
      ∃ txn ∈ (s.active_txns 1).toList, txn.handle = ⟨1, 1⟩ := by
  have hexec : (exec (step twoPuppets) initState activeRun).any
      (fun s => (s.workers 0).held = [⟨0, 0⟩] ∧ (s.done_qs 1).toList = [⟨1, 1⟩]) = true := by
    decide +kernel
  obtain ⟨s, hs, hboth⟩ := (Option.any_eq_true _ _).mp hexec
  obtain ⟨hheld, hdone⟩ := of_decide_eq_true hboth
  obtain ⟨hapart, hactive⟩ := active_txns_never_conflict (run_of_exec hs)
  exact ⟨s, run_of_exec hs, hheld, hdone, hapart, hactive 0 ⟨0, 0⟩ (by simp [hheld]),
    hactive 1 ⟨1, 1⟩ (by simp [hdone])⟩

end Scheduler

end Puppetmaster.Wrapper
