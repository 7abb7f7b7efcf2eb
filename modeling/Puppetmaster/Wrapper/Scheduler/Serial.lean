import Puppetmaster.Library.Serial
import Puppetmaster.Wrapper.Scheduler.Log

namespace Puppetmaster.Wrapper

open Library Library.Transition

-- For the numeral of the only client.
theorem max_clients_ne_zero : MAX_CLIENTS ≠ 0 := by decide

instance : @NeZero ℕ Zero.ofOfNat0 MAX_CLIENTS := ⟨max_clients_ne_zero⟩

-- The transaction that is taken out of its queue and not yet active.
def SchedulerPC.taken : SchedulerPC → List Job
  | .enqActive _ txn => [txn]
  | _ => []

-- The transaction that is active and not yet logged as scheduled.
def SchedulerPC.unlogged : SchedulerPC → List Job
  | .logReady _ txn => [txn]
  | _ => []

-- The id whose transaction is no longer active and not yet logged as cleaned up.
def SchedulerPC.removed : SchedulerPC → List Handle
  | .logCleanup _ txn_id => [txn_id]
  | _ => []

-- The number of transactions placed since current_puppet_id moved last.
def SchedulerPC.placed : SchedulerPC → ℕ
  | .logReady _ _ | .enqSched _ _ | .advance _ => 1
  | _ => 0

-- The number of transactions that the next step of the scheduler thread starts.
def SchedulerPC.starting : SchedulerPC → ℕ
  | .enqActive _ _ => 1
  | _ => 0

theorem SchedulerPC.nothing_of_quiet {pc : SchedulerPC} (h : pc.quiet = true) :
    pc.taken = [] ∧ pc.unlogged = [] ∧ pc.removed = [] ∧ pc.starting = 0 := by
  cases pc <;> first | exact ⟨rfl, rfl, rfl, rfl⟩ | exact absurd h (by simp [quiet])

namespace Scheduler

def Label.submission : Label → Option Txn
  | .submit _ txn => some txn
  | _ => none

def starts (s : Scheduler) : Label → ℕ
  | .scheduler => s.pc.starting
  | _ => 0

-- The transactions that pmhw_schedule was called with, oldest first.
def submissions (labels : List Label) : List Txn := trace Label.submission labels

def numbered (txns : List Txn) : List Job := txns.mapIdx fun serial txn => ⟨serial, txn⟩

@[simp] theorem length_numbered (txns : List Txn) : (numbered txns).length = txns.length :=
  List.length_mapIdx

theorem numbered_snoc (txns : List Txn) (txn : Txn) :
    numbered (txns ++ [txn]) = numbered txns ++ [⟨txns.length, txn⟩] := by
  rw [numbered, List.mapIdx_concat, numbered]

theorem getElem?_numbered {txns : List Txn} {n : ℕ} {job : Job} :
    (numbered txns)[n]? = some job ↔ job.serial = n ∧ txns[n]? = some job.txn := by
  rw [numbered, List.getElem?_mapIdx, Option.map_eq_some_iff]
  constructor
  · rintro ⟨txn, htxn, rfl⟩
    exact ⟨rfl, htxn⟩
  · rintro ⟨rfl, htxn⟩
    exact ⟨job.txn, htxn, rfl⟩

theorem mem_take_numbered {txns : List Txn} {k : ℕ} {job : Job} :
    job ∈ (numbered txns).take k ↔ job.serial < k ∧ txns[job.serial]? = some job.txn := by
  rw [List.mem_take_iff_getElem]
  constructor
  · rintro ⟨n, hn, heq⟩
    have hget := getElem?_numbered.mp ((List.getElem?_eq_getElem (by omega)).trans (congrArg some heq))
    obtain ⟨hserial, htxn⟩ := hget
    exact ⟨by omega, by rwa [hserial]⟩
  · rintro ⟨hlt, htxn⟩
    obtain ⟨hn, heq⟩ := List.getElem?_eq_some_iff.mp (getElem?_numbered.mpr ⟨rfl, htxn⟩)
    exact ⟨job.serial, by omega, heq⟩

-- The SCHED_READY entry of a transaction: the puppets take turns.
def readyCall (cfg : Config) (txn : Job) : LogCall :=
  ⟨txn.handle, .SCHED_READY, BitVec.ofNat 64 (txn.serial % cfg.num_puppets)⟩

def readyCalls (log : List LogCall) : List LogCall :=
  log.filter fun call => call.kind = .SCHED_READY

theorem readyCalls_snoc_other {log : List LogCall} {call : LogCall} (h : call.kind ≠ .SCHED_READY) :
    readyCalls (log ++ [call]) = readyCalls log := by
  simp [readyCalls, h]

-- Transaction `n` has a log entry of this kind.
def Entered (kind : PmlogKind) (log : List LogCall) (n : ℕ) : Prop :=
  ∃ call ∈ log, call.handle.serial = n ∧ call.kind = kind

instance (kind : PmlogKind) (log : List LogCall) (n : ℕ) : Decidable (Entered kind log n) :=
  inferInstanceAs (Decidable (∃ call ∈ log, call.handle.serial = n ∧ call.kind = kind))

theorem Entered.mono {log log' : List LogCall} {kind : PmlogKind} {n : ℕ}
    (hentered : Entered kind log n) (h : log <+: log') : Entered kind log' n := by
  obtain ⟨call, hcall, hboth⟩ := hentered
  exact ⟨call, h.subset hcall, hboth⟩

theorem entered_iff {kind : PmlogKind} {n : ℕ} {s : Scheduler} :
    Entered kind s.log n ↔ kind ∈ s.logged n := by
  simp [Entered, logged, history, and_assoc]

-- The transactions submitted and not yet active.
def waiting (s : Scheduler) : List Job :=
  s.pc.taken ++ (s.pending_qs 0).toList ++ (s.clients 0).carried

-- The first `k` transactions have been started, in the order of their submission. Each is
-- active until it is logged as cleaned up, and none was started before the earlier ones it
-- conflicts with were.
structure Serial (cfg : Config) (txns : List Txn) (k : ℕ) (s : Scheduler) : Prop where
  submitted : s.submitted = txns.length
  waiting : s.waiting = (numbered txns).drop k
  started_le : k ≤ txns.length
  placed_le : s.pc.placed ≤ k
  turn : s.current_puppet_id.val = (k - s.pc.placed) % cfg.num_puppets
  unlogged : ∀ txn ∈ s.pc.unlogged, txn.serial + 1 = k
  ready : readyCalls s.log ++ s.pc.unlogged.map (readyCall cfg) =
    ((numbered txns).take k).map (readyCall cfg)
  present : ∀ a ∈ (numbered txns).take k, (∃ p, a ∈ (s.active_txns p).toList) ∨
    Entered .CLEANUP s.log a.serial ∨ a.handle ∈ s.pc.removed
  settled : ∀ a ∈ (numbered txns).take k, ∀ b ∈ (numbered txns).take k, a.serial < b.serial →
    ¬ Compatible a b → Entered .CLEANUP s.log a.serial

variable {cfg : Config} {s t : Scheduler} {txns : List Txn} {k : ℕ}

theorem Serial.init (cfg : Config) (jobs : ℕ → Job) (handles : ℕ → Handle) :
    Serial cfg [] 0 (Scheduler.init jobs handles) where
  submitted := rfl
  waiting := by simp [Scheduler.waiting, Scheduler.init, SchedulerPC.taken, ClientPC.carried, numbered]
  started_le := le_rfl
  placed_le := le_rfl
  turn := (Nat.zero_mod _).symm
  unlogged _ h := absurd h List.not_mem_nil
  ready := rfl
  present _ h := absurd h List.not_mem_nil
  settled _ h := absurd h List.not_mem_nil

-- A step that starts no transaction and logs none as scheduled.
theorem Serial.keep (h : Serial cfg txns k s) (hsubmitted : t.submitted = s.submitted)
    (hwaiting : t.waiting = s.waiting) (hplaced : t.pc.placed = s.pc.placed)
    (hcurrent : t.current_puppet_id = s.current_puppet_id)
    (hunlogged : t.pc.unlogged = s.pc.unlogged) (hlog : s.log <+: t.log)
    (hready : readyCalls t.log = readyCalls s.log)
    (hactive : ∀ p, ∀ a ∈ (s.active_txns p).toList,
      a ∈ (t.active_txns p).toList ∨ a.handle ∈ t.pc.removed)
    (hremoved : ∀ txn_id ∈ s.pc.removed,
      txn_id ∈ t.pc.removed ∨ Entered .CLEANUP t.log txn_id.serial) : Serial cfg txns k t where
  submitted := hsubmitted.trans h.submitted
  waiting := hwaiting.trans h.waiting
  started_le := h.started_le
  placed_le := hplaced ▸ h.placed_le
  turn := by rw [hcurrent, hplaced, h.turn]
  unlogged := hunlogged ▸ h.unlogged
  ready := by rw [hready, hunlogged, h.ready]
  present a ha := by
    rcases h.present a ha with ⟨p, hp⟩ | hcleaned | hid
    · rcases hactive p a hp with hstill | hgone
      · exact .inl ⟨p, hstill⟩
      · exact .inr (.inr hgone)
    · exact .inr (.inl (hcleaned.mono hlog))
    · rcases hremoved _ hid with hstill | hlogged
      · exact .inr (.inr hstill)
      · exact .inr (.inl hlogged)
  settled a ha b hb hlt hcompatible := (h.settled a ha b hb hlt hcompatible).mono hlog

-- A step of a client or a worker that logs at most its own call.
theorem Serial.of_other (h : Serial cfg txns k s) (hsubmitted : t.submitted = s.submitted)
    (hwaiting : t.waiting = s.waiting) (hpc : t.pc = s.pc)
    (hcurrent : t.current_puppet_id = s.current_puppet_id) (hactive : t.active_txns = s.active_txns)
    (calls : List LogCall) (hlog : t.log = s.log ++ calls) (hcalls : readyCalls calls = []) :
    Serial cfg txns k t := by
  refine h.keep hsubmitted hwaiting (by rw [hpc]) hcurrent (by rw [hpc]) ⟨calls, hlog.symm⟩ ?_
    (fun p a ha => .inl (by rwa [hactive])) fun _ hid => .inl (by rwa [hpc])
  rw [hlog, readyCalls, List.filter_append, ← readyCalls, ← readyCalls, hcalls, List.append_nil]

-- Between two points where the scheduler thread has nothing in its hands.
theorem Serial.goto (h : Serial cfg txns k s) {pc : SchedulerPC} (hquiet : s.pc.quiet = true)
    (hquiet' : pc.quiet = true) (hplaced : pc.placed = s.pc.placed) :
    Serial cfg txns k { s with pc := pc } := by
  obtain ⟨htaken, hunlogged, hremoved, -⟩ := SchedulerPC.nothing_of_quiet hquiet
  obtain ⟨htaken', hunlogged', -, -⟩ := SchedulerPC.nothing_of_quiet hquiet'
  refine h.keep rfl ?_ hplaced rfl (hunlogged'.trans hunlogged.symm) List.prefix_rfl rfl
    (fun p a ha => .inl ha) fun _ hid => absurd (hremoved ▸ hid) List.not_mem_nil
  simp only [Scheduler.waiting, htaken, htaken']

theorem placed_of_quiet (h : s.scheduler_loop cfg = some t) (hquiet : s.pc.quiet = true) :
    t.pc.placed = 0 := by
  unfold scheduler_loop at h
  cases hpc : s.pc <;> simp only [hpc] at h hquiet
  case deqActive | logCleanup | enqActive | logReady | enqSched => simp [SchedulerPC.quiet] at hquiet
  all_goals
    (try split at h) <;> (try split at h) <;> simp only [Option.some.injEq, reduceCtorEq] at h <;>
      subst h <;> rfl

theorem Serial.takeDone (h : Serial cfg txns k s) {puppet : PuppetIndex} {txn_id : Handle}
    {q : Ring Handle MAX_ACTIVE_PER_PUPPET} (hpc : s.pc = .deqDone puppet) :
    Serial cfg txns k { s with
      done_qs := Function.update s.done_qs puppet q
      pc := .deqActive puppet txn_id } := by
  refine h.keep rfl ?_ (by rw [hpc]; rfl) rfl (by rw [hpc]; rfl) List.prefix_rfl rfl
    (fun p a ha => .inl ha) fun _ hid => absurd hid (by rw [hpc]; exact List.not_mem_nil)
  simp only [Scheduler.waiting, hpc]
  rfl

theorem Serial.removeActive (h : Serial cfg txns k s) {puppet : PuppetIndex} {txn : Job}
    {q : Ring Job MAX_ACTIVE_PER_PUPPET} (hpc : s.pc = .deqActive puppet txn.handle)
    (hactive : (s.active_txns puppet).toList = txn :: q.toList) :
    Serial cfg txns k { s with
      active_txns := Function.update s.active_txns puppet q
      pc := .logCleanup puppet txn.handle } := by
  refine h.keep rfl ?_ (by rw [hpc]; rfl) rfl (by rw [hpc]; rfl) List.prefix_rfl rfl
    (fun p a ha => ?_) fun _ hid => absurd hid (by rw [hpc]; exact List.not_mem_nil)
  · simp only [Scheduler.waiting, hpc]
    rfl
  · by_cases hp : p = puppet
    · subst hp
      rw [hactive, List.mem_cons] at ha
      rcases ha with rfl | ha
      · exact .inr List.mem_cons_self
      · exact .inl (by simpa only [Function.update_self] using ha)
    · exact .inl (by simpa only [Function.update_of_ne hp] using ha)

theorem Serial.logCleanup (h : Serial cfg txns k s) {puppet : PuppetIndex} {txn_id : Handle}
    (hpc : s.pc = .logCleanup puppet txn_id) :
    Serial cfg txns k { s.pmlog_record txn_id .CLEANUP (-1) with pc := .deqDone puppet } := by
  refine h.keep rfl ?_ (by rw [hpc]; rfl) rfl (by rw [hpc]; rfl) (List.prefix_append _ _)
    (readyCalls_snoc_other (by simp)) (fun p a ha => .inl ha) fun other hid => .inr ?_
  · simp only [Scheduler.waiting, hpc]
    rfl
  · rw [hpc] at hid
    obtain rfl := List.mem_singleton.mp hid
    exact ⟨⟨other, .CLEANUP, -1⟩, by simp [pmlog_record], rfl, rfl⟩

theorem Serial.takePending (h : Serial cfg txns k s) {client : ClientIndex} {peeked txn : Job}
    {q : Ring Job MAX_PENDING_PER_CLIENT} (hpc : s.pc = .deqPending client peeked)
    (hpending : (s.pending_qs client).toList = txn :: q.toList) :
    Serial cfg txns k { s with
      pending_qs := Function.update s.pending_qs client q
      pc := .enqActive client txn } := by
  obtain rfl : client = 0 := Subsingleton.elim _ _
  refine h.keep rfl ?_ (by rw [hpc]; rfl) rfl (by rw [hpc]; rfl) List.prefix_rfl rfl
    (fun p a ha => .inl ha) fun _ hid => absurd hid (by rw [hpc]; exact List.not_mem_nil)
  simp only [Scheduler.waiting, hpc, hpending, SchedulerPC.taken, Function.update_self,
    List.nil_append, List.cons_append]

-- The transaction taken is the next one in the order of submission.
theorem Serial.taken_eq (h : Serial cfg txns k s) {client : ClientIndex} {txn : Job}
    (hpc : s.pc = .enqActive client txn) :
    (numbered txns).take (k + 1) = (numbered txns).take k ++ [txn] ∧ txn.serial = k ∧
      (numbered txns).drop (k + 1) = (s.pending_qs 0).toList ++ (s.clients 0).carried := by
  have hwaiting := h.waiting
  rw [Scheduler.waiting, hpc, SchedulerPC.taken, List.append_assoc] at hwaiting
  have hhead : (numbered txns)[k]? = some txn := by
    rw [← List.head?_drop, ← hwaiting]
    rfl
  refine ⟨?_, (getElem?_numbered.mp hhead).1, ?_⟩
  · rw [List.take_add_one, hhead]
    rfl
  · rw [← List.tail_drop, ← hwaiting]
    rfl

-- The transaction started was compared with every transaction still active.
theorem Serial.putActive (ho : Orderly cfg s) (h : Serial cfg txns k s) {client : ClientIndex}
    {txn : Job} {q : Ring Job MAX_ACTIVE_PER_PUPPET} (hpc : s.pc = .enqActive client txn)
    (hactive : q.toList = (s.active_txns s.current_puppet_id).toList ++ [txn]) :
    Serial cfg txns (k + 1) { s with
      active_txns := Function.update s.active_txns s.current_puppet_id q
      pc := .logReady client txn } := by
  obtain ⟨htake, hserial, hdrop⟩ := h.taken_eq hpc
  have hkeep : ∀ p, ∀ a ∈ (s.active_txns p).toList,
      a ∈ (Function.update s.active_txns s.current_puppet_id q p).toList := by
    intro p a ha
    by_cases hp : p = s.current_puppet_id
    · subst hp
      rw [Function.update_self, hactive]
      exact List.mem_append_left _ ha
    · rwa [Function.update_of_ne hp]
  have hlt : k < (numbered txns).length := by
    have hlength := congrArg List.length htake
    rw [List.length_take, List.length_append, List.length_take, List.length_singleton] at hlength
    omega
  -- what is not active any more and conflicts with `txn` has been logged as cleaned up
  have hsettled : ∀ a ∈ (numbered txns).take k, ¬ Compatible a txn →
      Entered .CLEANUP s.log a.serial := by
    intro a ha hcompatible
    rcases h.present a ha with ⟨p, hp⟩ | hcleaned | hid
    · have hready := ho.ready
      rw [hpc] at hready
      by_cases hlt : p.val < cfg.num_puppets
      · exact absurd (Compatible.symm (hready.2 p hlt a hp)) hcompatible
      · rw [ho.unused p (Nat.not_lt.mp hlt)] at hp
        exact absurd hp List.not_mem_nil
    · exact hcleaned
    · rw [hpc] at hid
      exact absurd hid List.not_mem_nil
  refine ⟨h.submitted, ?_, length_numbered txns ▸ hlt, Nat.le_add_left _ _, ?_, ?_, ?_, ?_, ?_⟩
  · rw [hdrop]
    rfl
  · have hturn := h.turn
    rw [hpc] at hturn
    exact hturn
  · intro a ha
    rw [List.mem_singleton.mp ha, hserial]
  · have hready := h.ready
    rw [hpc] at hready
    rw [htake, List.map_append, ← hready]
    simp [SchedulerPC.unlogged]
  · intro a ha
    rw [htake, List.mem_append, List.mem_singleton] at ha
    rcases ha with ha | rfl
    · rcases h.present a ha with ⟨p, hp⟩ | hcleaned | hid
      · exact .inl ⟨p, hkeep p a hp⟩
      · exact .inr (.inl hcleaned)
      · rw [hpc] at hid
        exact absurd hid List.not_mem_nil
    · refine .inl ⟨s.current_puppet_id, ?_⟩
      simp only [Function.update_self, hactive, List.mem_append, List.mem_singleton, or_true]
  · intro a ha b hb hab hcompatible
    rw [htake, List.mem_append, List.mem_singleton] at ha hb
    rcases hb with hb | rfl
    · rcases ha with ha | rfl
      · exact h.settled a ha b hb hab hcompatible
      · have hb := (mem_take_numbered.mp hb).1
        omega
    · rcases ha with ha | rfl
      · exact hsettled a ha hcompatible
      · omega

theorem Serial.logReady (h : Serial cfg txns k s) {client : ClientIndex} {txn : Job}
    (hpc : s.pc = .logReady client txn) :
    Serial cfg txns k
      { s.pmlog_record txn.handle .SCHED_READY (BitVec.ofNat 64 s.current_puppet_id.val) with
        pc := .enqSched client txn } := by
  have hserial : txn.serial + 1 = k := h.unlogged txn (by rw [hpc]; exact List.mem_cons_self)
  have hturn := h.turn
  rw [hpc, SchedulerPC.placed] at hturn
  have hcall : (⟨txn.handle, .SCHED_READY, BitVec.ofNat 64 s.current_puppet_id.val⟩ : LogCall) =
      readyCall cfg txn := by
    rw [readyCall, hturn, ← hserial, Nat.add_sub_cancel]
  have hlog : ∀ n, Entered .CLEANUP s.log n →
      Entered .CLEANUP (s.log ++ [readyCall cfg txn]) n :=
    fun n hn => hn.mono (List.prefix_append _ _)
  rw [pmlog_record, hcall]
  refine ⟨h.submitted, ?_, h.started_le, by have := h.placed_le; rwa [hpc] at this, ?_,
    fun _ hmem => absurd hmem List.not_mem_nil, ?_, fun a ha => ?_, fun a ha b hb hlt hcompatible => ?_⟩
  · rw [← h.waiting]
    simp only [Scheduler.waiting, hpc]
    rfl
  · rw [hturn]
    rfl
  · have hready := h.ready
    rw [hpc, SchedulerPC.unlogged, List.map_singleton] at hready
    rw [← hready]
    simp [readyCalls, readyCall, SchedulerPC.unlogged]
  · rcases h.present a ha with hp | hcleaned | hid
    · exact .inl hp
    · exact .inr (.inl (hlog _ hcleaned))
    · rw [hpc] at hid
      exact absurd hid List.not_mem_nil
  · exact hlog _ (h.settled a ha b hb hlt hcompatible)

theorem Serial.dispatch (h : Serial cfg txns k s) {client : ClientIndex} {txn : Job}
    {q : Ring Handle MAX_ACTIVE_PER_PUPPET} (hpc : s.pc = .enqSched client txn) :
    Serial cfg txns k { s with
      sched_qs := Function.update s.sched_qs s.current_puppet_id q
      pc := .advance client } := by
  refine h.keep rfl ?_ (by rw [hpc]; rfl) rfl (by rw [hpc]; rfl) List.prefix_rfl rfl
    (fun p a ha => .inl ha) fun _ hid => absurd hid (by rw [hpc]; exact List.not_mem_nil)
  simp only [Scheduler.waiting, hpc]
  rfl

theorem Serial.advance (h : Serial cfg txns k s) {client : ClientIndex} {pc : SchedulerPC}
    (hpc : s.pc = .advance client) (hquiet : pc.quiet = true) (hplaced : pc.placed = 0) :
    Serial cfg txns k { s with
      current_puppet_id := cfg.nextPuppet s.current_puppet_id
      pc := pc } := by
  obtain ⟨htaken, hunlogged, hremoved, -⟩ := SchedulerPC.nothing_of_quiet hquiet
  have hturn := h.turn
  have hle := h.placed_le
  rw [hpc, SchedulerPC.placed] at hturn hle
  refine ⟨h.submitted, ?_, h.started_le, by simp [hplaced], ?_, by simp [hunlogged], ?_,
    fun a ha => ?_, h.settled⟩
  · rw [← h.waiting]
    simp only [Scheduler.waiting, hpc, htaken]
    rfl
  · simp only [Config.nextPuppet, Config.puppet, hturn, hplaced, Nat.sub_zero]
    rw [Nat.mod_add_mod, Nat.sub_add_cancel hle]
  · rw [← h.ready, hpc, hunlogged]
    rfl
  · rcases h.present a ha with hp | hcleaned | hid
    · exact .inl hp
    · exact .inr (.inl hcleaned)
    · rw [hpc] at hid
      exact absurd hid List.not_mem_nil

theorem Serial.submit (h : Serial cfg txns k s) {client : ClientIndex} {txn : Txn}
    (hidle : s.clients client = .idle) :
    Serial cfg (txns ++ [txn]) k { s.pmlog_record ⟨s.submitted, txn.id⟩ .SUBMIT (-1) with
      clients := Function.update s.clients client (.submitting ⟨s.submitted, txn⟩)
      submitted := s.submitted + 1 } := by
  obtain rfl : client = 0 := Subsingleton.elim _ _
  have hle := h.started_le
  have htake : (numbered (txns ++ [txn])).take k = (numbered txns).take k := by
    rw [numbered_snoc, List.take_append_of_le_length (by rw [length_numbered]; exact hle)]
  have hlog : ∀ n, Entered .CLEANUP s.log n →
      Entered .CLEANUP (s.log ++ [⟨⟨s.submitted, txn.id⟩, .SUBMIT, -1⟩]) n :=
    fun n hn => hn.mono (List.prefix_append _ _)
  refine ⟨by simp [h.submitted], ?_, by simp; omega, h.placed_le, h.turn, h.unlogged, ?_,
    fun a ha => ?_, fun a ha b hb hlt hcompatible => ?_⟩
  · have hwaiting := h.waiting
    rw [Scheduler.waiting, hidle, ClientPC.carried, List.append_nil] at hwaiting
    rw [numbered_snoc, List.drop_append_of_le_length (by rw [length_numbered]; exact hle), ← hwaiting,
      h.submitted]
    simp only [Scheduler.waiting, pmlog_record, Function.update_self, ClientPC.carried]
  · have hready : readyCalls (s.log ++ [⟨⟨s.submitted, txn.id⟩, .SUBMIT, -1⟩]) = readyCalls s.log :=
      readyCalls_snoc_other (by simp)
    rw [htake, ← h.ready, ← hready]
    rfl
  · rw [htake] at ha
    rcases h.present a ha with hp | hcleaned | hid
    · exact .inl hp
    · exact .inr (.inl (hlog _ hcleaned))
    · exact .inr (.inr hid)
  · rw [htake] at ha hb
    exact hlog _ (h.settled a ha b hb hlt hcompatible)

theorem Serial.put (h : Serial cfg txns k s) {client : ClientIndex} {txn : Job}
    {q : Ring Job MAX_PENDING_PER_CLIENT} (hpc : s.clients client = .submitting txn)
    (hpending : q.toList = (s.pending_qs client).toList ++ [txn]) :
    Serial cfg txns k { s with
      pending_qs := Function.update s.pending_qs client q
      clients := Function.update s.clients client .idle } := by
  obtain rfl : client = 0 := Subsingleton.elim _ _
  refine h.of_other rfl ?_ rfl rfl rfl [] (List.append_nil _).symm rfl
  simp only [Scheduler.waiting, hpc, hpending, Function.update_self, ClientPC.carried,
    List.append_assoc, List.append_nil]

-- A step of one thread besides the calls of pmhw_schedule.
theorem Serial.of_label (h : Serial cfg txns k t) {label : Label} (hlabel : label.submission = none)
    (hstarts : s.starts label = 0) :
    Serial cfg (txns ++ label.submission.toList) (k + s.starts label) t := by
  rwa [hlabel, Option.toList_none, List.append_nil, hstarts]

theorem Serial.step {label : Label} (ho : Orderly cfg s) (h : Serial cfg txns k s)
    (hstep : s.step cfg label = some t) :
    Serial cfg (txns ++ label.submission.toList) (k + s.starts label) t := by
  have hnext := ho.step (fires_of_step hstep)
  cases fires_of_step hstep with
  | @goto pc hquiet hquiet' =>
      have hplaced : pc.placed = 0 := placed_of_quiet hstep hquiet
      refine Serial.of_label ?_ rfl (SchedulerPC.nothing_of_quiet hquiet).2.2.2
      cases hpc : s.pc with
      | advance client =>
          simp only [Scheduler.step, scheduler_loop, hpc, Option.some.injEq] at hstep
          rw [← hstep]
          exact h.advance hpc (by split <;> rfl) (by split <;> rfl)
      | logReady | enqSched => simp [hpc, SchedulerPC.quiet] at hquiet
      | _ => exact h.goto hquiet hquiet' (by rw [hpc, hplaced]; rfl)
  | takeDone hpc => exact (h.takeDone hpc).of_label rfl (congrArg SchedulerPC.starting hpc)
  | lostActive => exact absurd rfl hnext.not_failed
  | removeActive hpc hactive =>
      obtain ⟨rfl, -⟩ := ho.removed_eq hpc hactive
      rw [Job.handle_id, if_pos rfl]
      exact (h.removeActive hpc hactive).of_label rfl (congrArg SchedulerPC.starting hpc)
  | logCleanup hpc => exact (h.logCleanup hpc).of_label rfl (congrArg SchedulerPC.starting hpc)
  | lostPending => exact absurd rfl hnext.not_failed
  | takePending hpc hpending => exact (h.takePending hpc hpending).of_label rfl (congrArg SchedulerPC.starting hpc)
  | fullActive => exact absurd rfl hnext.not_failed
  | putActive hpc hactive =>
      have hnone : Label.scheduler.submission = none := rfl
      rw [starts, hpc, hnone, Option.toList_none, List.append_nil]
      exact h.putActive ho hpc hactive
  | logReady hpc => exact (h.logReady hpc).of_label rfl (congrArg SchedulerPC.starting hpc)
  | fullSched => exact absurd rfl hnext.not_failed
  | dispatch hpc => exact (h.dispatch hpc).of_label rfl (congrArg SchedulerPC.starting hpc)
  | advance hpc =>
      refine Serial.of_label ?_ rfl (congrArg SchedulerPC.starting hpc)
      exact h.advance hpc (by split <;> rfl) (by split <;> rfl)
  | workerGoto | poll | report | shutdown =>
      refine Serial.of_label ?_ rfl rfl
      exact h.of_other rfl rfl rfl rfl rfl [] (List.append_nil _).symm rfl
  | @logRecv puppet txn_id =>
      refine Serial.of_label ?_ rfl rfl
      exact h.of_other rfl rfl rfl rfl rfl [⟨txn_id, .WORK_RECV, _⟩] rfl (by simp [readyCalls])
  | @logDone puppet txn_id =>
      refine Serial.of_label ?_ rfl rfl
      exact h.of_other rfl rfl rfl rfl rfl [⟨txn_id, .DONE, _⟩] rfl (by simp [readyCalls])
  | reportFull | putFull => exact h.of_label rfl rfl
  | submit hidle => exact h.submit hidle
  | put hpc hpending => exact (h.put hpc hpending).of_label rfl rfl

theorem submissions_snoc (labels : List Label) (label : Label) :
    submissions (labels ++ [label]) = submissions labels ++ label.submission.toList :=
  trace_snoc _ _ _

theorem Serial.run {labels : List Label} {jobs : ℕ → Job} {handles : ℕ → Handle}
    (hrun : Run (Of (Scheduler.step cfg)) (Scheduler.init jobs handles) labels s) :
    ∃ k, Serial cfg (submissions labels) k s := by
  have hboth : Orderly cfg s ∧ ∃ k, Serial cfg (submissions labels) k s :=
    hrun.history (fun labels s => Orderly cfg s ∧ ∃ k, Serial cfg (submissions labels) k s)
      ⟨Orderly.init cfg jobs handles, 0, Serial.init cfg jobs handles⟩ fun labels s label t h hstep => by
        obtain ⟨ho, k, hk⟩ := h
        rw [submissions_snoc]
        exact ⟨ho.step (fires_of_step hstep), k + s.starts label, hk.step ho hstep⟩
  exact hboth.2

end Scheduler

end Puppetmaster.Wrapper
