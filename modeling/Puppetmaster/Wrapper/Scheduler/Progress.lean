import Puppetmaster.Wrapper.Scheduler.Serializable

namespace Puppetmaster.Wrapper

open Library Library.Transition

-- How many moves a transaction is away from its end, by where it is.

def SchedulerPC.remaining : SchedulerPC → ℕ
  | .enqActive _ _ => 10
  | .logReady _ _ => 9
  | .enqSched _ _ => 8
  | .deqActive _ _ => 2
  | .logCleanup _ _ => 1
  | _ => 0

def WorkerPC.remaining : WorkerPC → ℕ
  | .received _ => 6
  | .working _ => 5
  | .reporting _ => 4
  | _ => 0

-- The steps that the scheduler thread takes at most before it is back at its loop head.
def SchedulerPC.rank (num_puppets : ℕ) : SchedulerPC → ℕ
  | .loopHead => 0
  | .deqPending _ _ => 1
  | .drainPending client => if client = 0 then 3 else 1
  | .peekPending _ => 2
  | .advance _ => 3
  | .drainDone puppet => 4 + 2 * (num_puppets - puppet)
  | .deqDone puppet => 5 + 2 * (num_puppets - (puppet.val + 1))
  | _ => 0

theorem SchedulerPC.remaining_of_quiet {pc : SchedulerPC} (h : pc.quiet = true) : pc.remaining = 0 := by
  cases pc <;> first | rfl | exact absurd h (by simp [quiet])

theorem WorkerPC.remaining_of_held {pc : WorkerPC} (h : pc.held = []) : pc.remaining = 0 := by
  cases pc <;> first | rfl | exact absurd h (by simp [held])

namespace Scheduler

def puppetRemaining (s : Scheduler) (p : PuppetIndex) : ℕ :=
  (s.sched_qs p).toList.length * 7 + (s.workers p).remaining + (s.done_qs p).toList.length * 3

def remaining (s : Scheduler) : ℕ :=
  (s.clients 0).carried.length * 12 + (s.pending_qs 0).toList.length * 11 + s.pc.remaining +
    ∑ p, s.puppetRemaining p

-- The steps of the threads besides new calls and the shutdown.
def Label.own : Label → Prop
  | .scheduler | .worker _ | .client _ => True
  | .submit _ _ | .shutdown => False

instance (label : Label) : Decidable label.own := by
  cases label <;> unfold Label.own <;> infer_instance

abbrev Own (cfg : Config) : Scheduler → Label → Scheduler → Prop :=
  Meeting (Scheduler.step cfg) fun _ label => label.own

variable {cfg : Config} {s t : Scheduler}

-- No thread stops before the shutdown.
def Running (s : Scheduler) : Prop :=
  s.scheduler_running = true ∧ s.pc ≠ .stopped ∧ ∀ p, s.workers p ≠ .stopped

theorem running_of_scheduler (h : s.scheduler_loop cfg = some t) (hup : s.scheduler_running = true) :
    t.scheduler_running = true ∧ t.pc ≠ .stopped ∧ t.workers = s.workers := by
  unfold scheduler_loop at h
  cases hpc : s.pc <;> simp only [hpc] at h
  all_goals
    (try split at h) <;> (try split at h) <;> simp only [Option.some.injEq, reduceCtorEq] at h <;>
      subst h <;> refine ⟨hup, ?_, rfl⟩ <;> simp

theorem running_of_worker {puppet : PuppetIndex} (h : s.puppet_thread puppet = some t)
    (hup : s.scheduler_running = true) : t.scheduler_running = true ∧ t.pc = s.pc ∧
      ∀ p, t.workers p = .stopped → s.workers p = .stopped := by
  have hupdate : ∀ {pc : WorkerPC}, pc ≠ .stopped → ∀ p,
      Function.update s.workers puppet pc p = .stopped → s.workers p = .stopped := by
    intro pc hne p hp
    by_cases heq : p = puppet
    · subst heq
      rw [Function.update_self] at hp
      exact absurd hp hne
    · rwa [Function.update_of_ne heq] at hp
  unfold puppet_thread at h
  cases hpc : s.workers puppet <;> simp only [hpc] at h
  all_goals
    (try split at h) <;> simp only [Option.some.injEq, reduceCtorEq] at h <;> subst h <;>
      first | exact ⟨hup, rfl, hupdate (by simp)⟩ | exact ⟨hup, rfl, fun _ h => h⟩

theorem Running.init (jobs : ℕ → Job) (handles : ℕ → Handle) : (Scheduler.init jobs handles).Running :=
  ⟨rfl, by simp [Scheduler.init], by simp [Scheduler.init]⟩

theorem Running.step {label : Label} (h : s.Running) (hstep : s.step cfg label = some t)
    (hup : t.scheduler_running = true) : t.Running := by
  obtain ⟨hrunning, hpc, hworkers⟩ := h
  cases label with
  | scheduler =>
      obtain ⟨-, hpc', hworkers'⟩ := running_of_scheduler hstep hrunning
      exact ⟨hup, hpc', hworkers' ▸ hworkers⟩
  | worker puppet =>
      simp only [Scheduler.step, Option.ite_none_right_eq_some] at hstep
      obtain ⟨-, hpc', hworkers'⟩ := running_of_worker hstep.2 hrunning
      exact ⟨hup, hpc' ▸ hpc, fun p hp => hworkers p (hworkers' p hp)⟩
  | submit client txn =>
      simp only [Scheduler.step, pmhw_schedule] at hstep
      split at hstep <;> simp only [Option.some.injEq, reduceCtorEq] at hstep
      subst hstep
      exact ⟨hup, hpc, hworkers⟩
  | client client =>
      simp only [Scheduler.step, pmhw_schedule_enq] at hstep
      split at hstep
      · simp at hstep
      · split at hstep <;> simp only [Option.some.injEq] at hstep <;> subst hstep <;>
          exact ⟨hup, hpc, hworkers⟩
  | shutdown =>
      simp only [Scheduler.step, Option.ite_none_right_eq_some, Option.some.injEq] at hstep
      rw [← hstep.2] at hup
      simp at hup

-- The shutdown is for good.
theorem running_of_step {label : Label} (hstep : s.step cfg label = some t)
    (hup : t.scheduler_running = true) : s.scheduler_running = true := by
  cases fires_of_step hstep with
  | shutdown => simp at hup
  | _ => exact hup

theorem Running.run {labels : List Label} {jobs : ℕ → Job} {handles : ℕ → Handle}
    (hrun : Run (Of (Scheduler.step cfg)) (Scheduler.init jobs handles) labels s)
    (hup : s.scheduler_running = true) : s.Running := by
  refine hrun.invariant (fun s => s.scheduler_running = true → s.Running)
    (fun _ => Running.init jobs handles) (fun s label t h hstep hup => ?_) hup
  exact (h (running_of_step hstep hup)).step hstep hup

-- A step of the scheduler thread brings a transaction nearer to its end, or it only moves the
-- thread.
theorem scheduler_moves (ho : Orderly cfg s) (hfires : Fires cfg s .scheduler t) :
    t.remaining < s.remaining ∨ (s.pc.quiet = true ∧ t.pc.quiet = true ∧
      t = { s with pc := t.pc, current_puppet_id := t.current_puppet_id }) := by
  have hnext := ho.step hfires
  cases hfires with
  | goto hquiet hquiet' => exact .inr ⟨hquiet, hquiet', rfl⟩
  | lostActive | lostPending | fullActive | fullSched => exact absurd rfl hnext.not_failed
  | @takeDone puppet txn_id q hpc hdone =>
      refine .inl ?_
      have hsum := sum_exchange (f := s.puppetRemaining)
        (g := puppetRemaining { s with done_qs := Function.update s.done_qs puppet q }) puppet
        fun p hp => by simp only [puppetRemaining, Function.update_of_ne hp]
      simp only [puppetRemaining, Function.update_self, hdone, List.length_cons] at hsum
      simp only [remaining, puppetRemaining, hpc, SchedulerPC.remaining]
      omega
  | removeActive hpc hactive =>
      obtain ⟨rfl, -⟩ := ho.removed_eq hpc hactive
      refine .inl ?_
      simp only [Job.handle_id, if_true, remaining, puppetRemaining, hpc, SchedulerPC.remaining]
      omega
  | logCleanup hpc | putActive hpc | logReady hpc =>
      refine .inl ?_
      simp only [remaining, puppetRemaining, pmlog_record, hpc, SchedulerPC.remaining]
      omega
  | @takePending client peeked txn q hpc hpending =>
      obtain rfl : client = 0 := Subsingleton.elim _ _
      refine .inl ?_
      simp only [remaining, puppetRemaining, hpc, hpending, Function.update_self, List.length_cons,
        SchedulerPC.remaining]
      omega
  | @dispatch client txn q hpc hsched =>
      refine .inl ?_
      have hsum := sum_exchange (f := s.puppetRemaining)
        (g := puppetRemaining { s with sched_qs := Function.update s.sched_qs s.current_puppet_id q })
        s.current_puppet_id fun p hp => by simp only [puppetRemaining, Function.update_of_ne hp]
      simp only [puppetRemaining, Function.update_self, hsched, List.length_append,
        List.length_singleton] at hsum
      simp only [remaining, puppetRemaining, hpc, SchedulerPC.remaining]
      omega
  | advance hpc =>
      exact .inr ⟨by rw [hpc]; rfl, by simp only; split <;> rfl, rfl⟩

theorem remaining_of_worker (puppet : PuppetIndex) (hclients : t.clients = s.clients)
    (hpending : t.pending_qs = s.pending_qs) (hpc : t.pc = s.pc)
    (hother : ∀ p, p ≠ puppet → t.puppetRemaining p = s.puppetRemaining p)
    (hless : t.puppetRemaining puppet < s.puppetRemaining puppet) : t.remaining < s.remaining := by
  have hsum := sum_exchange puppet hother
  rw [remaining, remaining, hclients, hpending, hpc]
  omega

-- A worker with a transaction, or with one in its queue as it polls.
theorem worker_moves (puppet : PuppetIndex) (ho : Orderly cfg s)
    (hwork : (s.workers puppet).held ≠ [] ∨
      s.workers puppet = .polling ∧ (s.sched_qs puppet).toList ≠ []) :
    ∃ t, s.puppet_thread puppet = some t ∧ t.remaining < s.remaining := by
  unfold puppet_thread
  cases hpc : s.workers puppet with
  | idle | stopped => simp [hpc, WorkerPC.held] at hwork
  | polling =>
      simp only [hpc, WorkerPC.held, ne_eq, not_true, true_and, false_or] at hwork ⊢
      cases hdeq : (s.sched_qs puppet).deq with
      | none => exact absurd (Ring.deq_eq_none.mp hdeq) hwork
      | some found =>
          refine ⟨_, rfl, remaining_of_worker puppet rfl rfl rfl (fun p hp => ?_) ?_⟩
          · simp only [puppetRemaining, Function.update_of_ne hp]
          · simp only [puppetRemaining, Function.update_self, hpc, Ring.toList_deq hdeq,
              List.length_cons, WorkerPC.remaining]
            omega
  | received txn_id | working txn_id =>
      refine ⟨_, rfl, remaining_of_worker puppet rfl rfl rfl (fun p hp => ?_) ?_⟩
      · simp only [puppetRemaining, pmlog_record, Function.update_of_ne hp]
      · simp only [puppetRemaining, pmlog_record, Function.update_self, hpc, WorkerPC.remaining]
        omega
  | reporting txn_id =>
      have hroom := ho.done_not_full hpc
      cases henq : (s.done_qs puppet).enq txn_id with
      | none =>
          rw [Ring.enq_eq_none, hroom] at henq
          exact absurd henq Bool.false_ne_true
      | some q =>
          simp only [henq]
          refine ⟨_, rfl, remaining_of_worker puppet rfl rfl rfl (fun p hp => ?_) ?_⟩
          · simp only [puppetRemaining, Function.update_of_ne hp]
          · simp only [puppetRemaining, Function.update_self, hpc, Ring.toList_enq henq,
              List.length_append, List.length_singleton, WorkerPC.remaining]
            omega

theorem exists_scheduler_step (cfg : Config) (hstopped : s.pc ≠ .stopped) (hfailed : s.pc ≠ .failed) :
    ∃ t, s.scheduler_loop cfg = some t := by
  rw [← Option.isSome_iff_exists]
  unfold scheduler_loop
  cases hpc : s.pc with
  | stopped => exact absurd hpc hstopped
  | failed => exact absurd hpc hfailed
  | _ =>
      simp only
      repeat' split
      all_goals rfl

theorem rank_lt (h : s.scheduler_loop cfg = some t) (hclients : cfg.num_clients = 1)
    (hquiet : s.pc.quiet = true) (hquiet' : t.pc.quiet = true) (hhead : s.pc ≠ .loopHead) :
    t.pc.rank cfg.num_puppets < s.pc.rank cfg.num_puppets := by
  unfold scheduler_loop at h
  cases hpc : s.pc with
  | loopHead => exact absurd hpc hhead
  | drainDone puppet =>
      simp only [hpc] at h
      split_ifs at h <;> obtain rfl := Option.some.inj h <;>
        simp only [SchedulerPC.rank, Config.puppet, if_true] <;> omega
  | deqDone puppet =>
      simp only [hpc] at h
      split at h <;> obtain rfl := Option.some.inj h
      · simp only [SchedulerPC.rank]
        omega
      · simp [SchedulerPC.quiet] at hquiet'
  | drainPending client =>
      simp only [hpc, hclients] at h
      split_ifs at h with hclient hfull <;> obtain rfl := Option.some.inj h <;>
        simp only [SchedulerPC.rank] <;> split_ifs <;> omega
  | peekPending client =>
      simp only [hpc] at h
      split at h
      · obtain rfl := Option.some.inj h
        simp [SchedulerPC.rank]
      · split_ifs at h <;> obtain rfl := Option.some.inj h <;> simp [SchedulerPC.rank]
  | deqPending client txn =>
      simp only [hpc] at h
      split at h <;> obtain rfl := Option.some.inj h
      · simp [SchedulerPC.rank]
      · simp [SchedulerPC.quiet] at hquiet'
  | advance client =>
      simp only [hpc, Option.some.injEq] at h
      subst h
      simp only
      split <;> simp [SchedulerPC.rank]
  | stopped => simp [hpc] at h
  | failed => simp [hpc] at h
  | _ => simp [hpc, SchedulerPC.quiet] at hquiet

-- Only the scheduler thread has moved, and it has nothing in its hands.
structure Rests (s t : Scheduler) : Prop where
  same : t = { s with pc := t.pc, current_puppet_id := t.current_puppet_id }
  quiet : t.pc.quiet = true

theorem Rests.remaining_eq (h : Rests s t) (hquiet : s.pc.quiet = true) : t.remaining = s.remaining := by
  have hpc := SchedulerPC.remaining_of_quiet hquiet
  have hpc' := SchedulerPC.remaining_of_quiet h.quiet
  rw [h.same]
  simp only [remaining, puppetRemaining, hpc, hpc']

theorem Rests.trans {u : Scheduler} (h : Rests s t) (h' : Rests t u) : Rests s u := by
  refine ⟨?_, h'.quiet⟩
  have hsame := h'.same
  rw [h.same] at hsame
  exact hsame

-- What the threads can do of themselves brings a transaction nearer to its end.
def Advances (cfg : Config) (s : Scheduler) : Prop :=
  ∃ labels t, Run (Own cfg) s labels t ∧ t.remaining < s.remaining

-- Where the thread only moves, the rest of the way is left.
theorem Advances.of_rests {labels : List Label} (hrun : Run (Own cfg) s labels t) (h : Rests s t)
    (hquiet : s.pc.quiet = true) (hadvances : Advances cfg t) : Advances cfg s := by
  obtain ⟨more, u, hmore, hless⟩ := hadvances
  exact ⟨labels ++ more, u, hrun.append hmore, by rwa [h.remaining_eq hquiet] at hless⟩

theorem own_scheduler (h : s.scheduler_loop cfg = some t) : Own cfg s .scheduler t := ⟨h, trivial⟩

theorem advances_or_rests (ho : Orderly cfg s) (hpc : s.pc ≠ .stopped) :
    Advances cfg s ∨ ∃ t, s.scheduler_loop cfg = some t ∧ Rests s t := by
  obtain ⟨t, ht⟩ := exists_scheduler_step cfg hpc ho.not_failed
  rcases scheduler_moves ho (fires_of_scheduler ht) with hless | ⟨-, hquiet', hsame⟩
  · exact .inl ⟨[.scheduler], t, Run.single (own_scheduler ht), hless⟩
  · exact .inr ⟨t, ht, hsame, hquiet'⟩

-- The scheduler thread comes back to its loop head.
theorem reaches_loopHead (hclients : cfg.num_clients = 1) (ho : Orderly cfg s) (hup : s.Running)
    (hquiet : s.pc.quiet = true) :
    Advances cfg s ∨ ∃ labels t, Run (Own cfg) s labels t ∧ Rests s t ∧ t.pc = .loopHead := by
  induction hrank : s.pc.rank cfg.num_puppets using Nat.strong_induction_on generalizing s with
  | h rank ih =>
    subst hrank
    by_cases hhead : s.pc = .loopHead
    · exact .inr ⟨[], s, .nil, ⟨rfl, hquiet⟩, hhead⟩
    rcases advances_or_rests ho hup.2.1 with hadvances | ⟨t, ht, hrests⟩
    · exact .inl hadvances
    have hstep : s.step cfg .scheduler = some t := ht
    have hrun : Run (Own cfg) s [.scheduler] t := Run.single (own_scheduler ht)
    have hup' : t.Running := hup.step hstep (running_of_scheduler ht hup.1).1
    have hless := rank_lt ht hclients hquiet hrests.quiet hhead
    rcases ih _ hless (ho.step (fires_of_step hstep)) hup' hrests.quiet rfl with
      hadvances | ⟨labels, u, hlabels, hrests', hu⟩
    · exact .inl (hadvances.of_rests hrun hrests hquiet)
    · exact .inr ⟨[.scheduler] ++ labels, u, hrun.append hlabels, hrests.trans hrests', hu⟩

theorem advances_of_moves (ho : Orderly cfg s) (h : s.scheduler_loop cfg = some t)
    (hquiet : t.pc.quiet ≠ true) : Advances cfg s := by
  rcases scheduler_moves ho (fires_of_scheduler h) with hless | ⟨-, hquiet', -⟩
  · exact ⟨[.scheduler], t, Run.single (own_scheduler h), hless⟩
  · exact absurd hquiet' hquiet

-- The scheduler thread looks at every done queue with an active transaction.
theorem sweeps {n : ℕ} (ho : Orderly cfg s) (hup : s.Running) (hpc : s.pc = .drainDone n) :
    Advances cfg s ∨ ∃ labels t, Run (Own cfg) s labels t ∧ Rests s t ∧ t.pc = .drainPending 0 ∧
      ∀ p : PuppetIndex, n ≤ p.val → p.val < cfg.num_puppets →
        (s.active_txns p).toList = [] ∨ (s.done_qs p).toList = [] := by
  induction hk : cfg.num_puppets - n generalizing n s with
  | zero =>
      have hstep : s.scheduler_loop cfg = some { s with pc := .drainPending 0 } := by
        rw [scheduler_loop, hpc]
        exact dif_neg (by omega)
      exact .inr ⟨[.scheduler], _, Run.single (own_scheduler hstep), ⟨rfl, rfl⟩, rfl,
        fun p hn hp => by omega⟩
  | succ k ih =>
      have hn : n < cfg.num_puppets := by omega
      have hquiet : s.pc.quiet = true := by rw [hpc]; rfl
      let puppet : PuppetIndex := cfg.puppet n hn
      -- what is left once the thread has passed this puppet
      have hrest : ∀ labels, Run (Own cfg) s labels { s with pc := .drainDone (n + 1) } →
          Orderly cfg { s with pc := .drainDone (n + 1) } →
          (s.active_txns puppet).toList = [] ∨ (s.done_qs puppet).toList = [] →
          Advances cfg s ∨ ∃ labels t, Run (Own cfg) s labels t ∧ Rests s t ∧ t.pc = .drainPending 0 ∧
            ∀ p : PuppetIndex, n ≤ p.val → p.val < cfg.num_puppets →
              (s.active_txns p).toList = [] ∨ (s.done_qs p).toList = [] := by
        intro labels hrun ho' hpassed
        have hrests : Rests s { s with pc := .drainDone (n + 1) } := ⟨rfl, rfl⟩
        rcases ih ho' ⟨hup.1, by simp, hup.2.2⟩ rfl (by omega) with
          hadvances | ⟨more, t, hmore, hrests', ht, hothers⟩
        · exact .inl (hadvances.of_rests hrun hrests hquiet)
        · refine .inr ⟨labels ++ more, t, hrun.append hmore, hrests.trans hrests', ht, fun p hp hlt => ?_⟩
          by_cases heq : p.val = n
          · obtain rfl : p = puppet := Fin.ext heq
            exact hpassed
          · exact hothers p (by omega) hlt
      by_cases hactive : (s.active_txns puppet).isEmpty = true
      · have hstep : s.scheduler_loop cfg = some { s with pc := .drainDone (n + 1) } := by
          rw [scheduler_loop, hpc]
          simp only
          rw [dif_pos hn, if_pos hactive]
        exact hrest [.scheduler] (Run.single (own_scheduler hstep))
          (ho.step (fires_of_scheduler hstep)) (.inl ((Ring.isEmpty_iff _).mp hactive))
      · have hstep : s.scheduler_loop cfg = some { s with pc := .deqDone puppet } := by
          rw [scheduler_loop, hpc]
          simp only
          rw [dif_pos hn, if_neg hactive]
        have ho' := ho.step (fires_of_scheduler hstep)
        have hrun : Run (Own cfg) s [.scheduler] { s with pc := .deqDone puppet } :=
          Run.single (own_scheduler hstep)
        cases hdone : (s.done_qs puppet).deq with
        | none =>
            have hnext : scheduler_loop cfg { s with pc := .deqDone puppet } =
                some { s with pc := .drainDone (n + 1) } := by
              simp only [scheduler_loop, hdone]
              rfl
            exact hrest [.scheduler, .scheduler] (Run.snoc hrun (own_scheduler hnext))
              (ho'.step (fires_of_scheduler hnext)) (.inr (Ring.deq_eq_none.mp hdone))
        | some found =>
            refine .inl (Advances.of_rests hrun ⟨rfl, rfl⟩ hquiet ?_)
            have hnext : scheduler_loop cfg { s with pc := .deqDone puppet } = some { s with
                done_qs := Function.update s.done_qs puppet found.2
                pc := .deqActive puppet found.1 } := by
              simp only [scheduler_loop, hdone]
            exact advances_of_moves ho' hnext (by simp [SchedulerPC.quiet])

-- With no transaction active, the oldest waiting one is taken.
theorem takes_pending (hclients : cfg.num_clients = 1) (ho : Orderly cfg s)
    (hpc : s.pc = .drainPending 0) (hempty : ∀ p, (s.active_txns p).toList = [])
    (hpending : (s.pending_qs 0).toList ≠ []) : Advances cfg s := by
  have hroom : (s.active_txns s.current_puppet_id).full = false := by
    rw [Bool.eq_false_iff, ne_eq, Ring.full_iff, hempty]
    simp
  have hpeek : s.scheduler_loop cfg = some { s with pc := .peekPending 0 } := by
    rw [scheduler_loop, hpc]
    simp only
    rw [dif_pos (by omega), if_neg (by simp [hroom])]
    rfl
  obtain ⟨txn, hhead⟩ : ∃ txn, (s.pending_qs 0).peek = some txn := by
    rw [Ring.peek_eq]
    exact ⟨_, List.head?_eq_some_head hpending⟩
  have hclear : conflicts_with_active cfg { s with pc := .peekPending 0 } txn.txn = false := by
    rw [conflicts_with_active_eq_false]
    intro p _ active hactive
    exact absurd (hempty p ▸ hactive) List.not_mem_nil
  have hdeq : scheduler_loop cfg { s with pc := .peekPending 0 } =
      some { s with pc := .deqPending 0 txn } := by
    simp only [scheduler_loop, hhead]
    rw [if_neg (by simp [hclear])]
  have hrun : Run (Own cfg) s [.scheduler, .scheduler] { s with pc := .deqPending 0 txn } :=
    (Run.single (own_scheduler hpeek)).append (Run.single (own_scheduler hdeq))
  refine Advances.of_rests hrun ⟨rfl, rfl⟩ (by rw [hpc]; rfl) ?_
  have ho' := (ho.step (fires_of_scheduler hpeek)).step (fires_of_scheduler hdeq)
  cases htake : (s.pending_qs 0).deq with
  | none => exact absurd (Ring.deq_eq_none.mp htake) hpending
  | some found =>
      have hnext : scheduler_loop cfg { s with pc := .deqPending 0 txn } = some { s with
          pending_qs := Function.update s.pending_qs 0 found.2
          pc := .enqActive 0 found.1 } := by
        simp only [scheduler_loop, htake]
      exact advances_of_moves ho' hnext (by simp [SchedulerPC.quiet])

-- A client puts its transaction into a queue that is empty.
theorem puts {txn : Job} (hpc : s.clients 0 = .submitting txn)
    (hpending : (s.pending_qs 0).toList = []) : Advances cfg s := by
  cases henq : (s.pending_qs 0).enq txn with
  | none =>
      have hfull := Ring.enq_eq_none.mp henq
      rw [Ring.full_iff, hpending] at hfull
      simp at hfull
  | some q =>
      have hstep : s.step cfg (.client 0) = some { s with
          pending_qs := Function.update s.pending_qs 0 q
          clients := Function.update s.clients 0 .idle } := by
        simp only [Scheduler.step, pmhw_schedule_enq, hpc, henq]
      refine ⟨[.client 0], _, Run.single ⟨hstep, trivial⟩, ?_⟩
      simp only [remaining, puppetRemaining, Function.update_self, hpc, hpending, Ring.toList_enq henq,
        ClientPC.carried, List.length_nil, List.nil_append, List.length_singleton]
      omega

-- A puppet with something in its part of the pipeline is one of those that run.
theorem Orderly.lt_num_puppets (ho : Orderly cfg s) {p : PuppetIndex} (h : s.inFlight p ≠ []) :
    p.val < cfg.num_puppets := by
  by_contra hge
  have hin := ho.in_order p
  rw [activeIds, ho.unused p (Nat.not_lt.mp hge), List.map_nil, pipeline] at hin
  have hnil := List.append_eq_nil_iff.mp hin.symm
  exact h (List.append_eq_nil_iff.mp hnil.1).2

theorem advances_of_held (ho : Orderly cfg s) {p : PuppetIndex} (hheld : (s.workers p).held ≠ []) :
    Advances cfg s := by
  obtain ⟨t, ht, hless⟩ := worker_moves p ho (.inl hheld)
  have hp := ho.lt_num_puppets (p := p) (by simp [inFlight, hheld])
  exact ⟨[.worker p], t, Run.single ⟨by rw [Scheduler.step, if_pos hp, ht], trivial⟩, hless⟩

-- A worker without a transaction only moves.
theorem remaining_of_worker_eq {p : PuppetIndex} {pc : WorkerPC}
    (h : pc.remaining = (s.workers p).remaining) :
    remaining { s with workers := Function.update s.workers p pc } = s.remaining := by
  have hsame : ∀ q, puppetRemaining { s with workers := Function.update s.workers p pc } q =
      s.puppetRemaining q := by
    intro q
    by_cases hq : q = p
    · subst hq
      simp only [puppetRemaining, Function.update_self, h]
    · simp only [puppetRemaining, Function.update_of_ne hq]
  rw [remaining, Finset.sum_congr rfl fun q _ => hsame q]
  rfl

theorem advances_of_sched (ho : Orderly cfg s) (hup : s.Running) {p : PuppetIndex}
    (hheld : (s.workers p).held = []) (hsched : (s.sched_qs p).toList ≠ []) : Advances cfg s := by
  have hp := ho.lt_num_puppets (p := p) (by simp [inFlight, hsched])
  cases hpc : s.workers p with
  | stopped => exact absurd hpc (hup.2.2 p)
  | polling =>
      obtain ⟨t, ht, hless⟩ := worker_moves p ho (.inr ⟨hpc, hsched⟩)
      exact ⟨[.worker p], t, Run.single ⟨by rw [Scheduler.step, if_pos hp, ht], trivial⟩, hless⟩
  | idle =>
      have hstep : s.step cfg (.worker p) = some { s with
          workers := Function.update s.workers p .polling } := by
        simp only [Scheduler.step, if_pos hp, puppet_thread, hpc, hup.1, if_true]
      have ho' := ho.step (fires_of_step hstep)
      obtain ⟨t, ht, hless⟩ := worker_moves p ho' (.inr ⟨Function.update_self _ _ _, hsched⟩)
      have hsame : remaining { s with workers := Function.update s.workers p .polling } = s.remaining :=
        remaining_of_worker_eq (by rw [hpc]; rfl)
      rw [hsame] at hless
      have hlast : Own cfg { s with workers := Function.update s.workers p .polling } (.worker p) t :=
        ⟨by rw [Scheduler.step, if_pos hp, ht], trivial⟩
      exact ⟨[.worker p, .worker p], t, (Run.single ⟨hstep, trivial⟩).append (Run.single hlast), hless⟩
  | received | working | reporting => simp [hpc, WorkerPC.held] at hheld

-- With nothing on its way to a worker or with it, the scheduler thread goes around once.
theorem advances_of_loop (hclients : cfg.num_clients = 1) (ho : Orderly cfg s) (hup : s.Running)
    (hquiet : s.pc.quiet = true) (hheld : ∀ p, (s.workers p).held = [])
    (hsched : ∀ p, (s.sched_qs p).toList = [])
    (hwork : (s.pending_qs 0).toList ≠ [] ∨ ∃ p, (s.done_qs p).toList ≠ []) : Advances cfg s := by
  rcases reaches_loopHead hclients ho hup hquiet with hadvances | ⟨labels, t, hrun, hrests, ht⟩
  · exact hadvances
  refine Advances.of_rests hrun hrests hquiet ?_
  rw [hrests.same, ht]
  have hstep : scheduler_loop cfg { s with pc := .loopHead, current_puppet_id := t.current_puppet_id } =
      some { s with pc := .drainDone 0, current_puppet_id := t.current_puppet_id } := by
    simp [scheduler_loop, hup.1]
  have hot : Orderly cfg t := hrun.invariant (Orderly cfg) ho fun _ _ _ h hstep => h.step (fires_of_step hstep.1)
  rw [hrests.same, ht] at hot
  have ho' := hot.step (fires_of_scheduler hstep)
  refine Advances.of_rests (Run.single (own_scheduler hstep)) ⟨rfl, rfl⟩ rfl ?_
  rcases sweeps ho' ⟨hup.1, by simp, hup.2.2⟩ rfl with hadvances | ⟨more, u, hmore, hrests', hu, hpassed⟩
  · exact hadvances
  refine Advances.of_rests hmore hrests' rfl ?_
  have hou : Orderly cfg u := hmore.invariant (Orderly cfg) ho' fun _ _ _ h hstep =>
    h.step (fires_of_step hstep.1)
  -- what is active is in the done queues, and what they hold would have been taken
  have hactive : ∀ p, (s.active_txns p).toList.map Job.handle = (s.done_qs p).toList := by
    intro p
    have hin := ho.in_order p
    rw [pipeline_of_quiet hquiet, inFlight, hheld p, hsched p, List.append_nil, List.append_nil] at hin
    exact hin
  have hempty : ∀ p, (s.active_txns p).toList = [] := by
    intro p
    by_cases hp : p.val < cfg.num_puppets
    · rcases hpassed p (Nat.zero_le _) hp with hnone | hnone
      · exact hnone
      · exact List.map_eq_nil_iff.mp ((hactive p).trans hnone)
    · exact ho.unused p (Nat.not_lt.mp hp)
  rcases hwork with hpending | ⟨p, hdone⟩
  · have hsame := hrests'.same
    refine takes_pending hclients hou hu (fun p => ?_) ?_
    · rw [hsame]
      exact hempty p
    · rw [hsame]
      exact hpending
  · exact absurd (by rw [← hactive p, hempty p, List.map_nil]) hdone

theorem advances (hclients : cfg.num_clients = 1) (ho : Orderly cfg s) (hup : s.Running)
    (hne : s.remaining ≠ 0) : Advances cfg s := by
  by_cases hquiet : s.pc.quiet = true
  · by_cases hheld : ∃ p, (s.workers p).held ≠ []
    · obtain ⟨p, hp⟩ := hheld
      exact advances_of_held ho hp
    have hheld : ∀ p, (s.workers p).held = [] := fun p => not_not.mp fun h => hheld ⟨p, h⟩
    by_cases hsched : ∃ p, (s.sched_qs p).toList ≠ []
    · obtain ⟨p, hp⟩ := hsched
      exact advances_of_sched ho hup (hheld p) hp
    have hsched : ∀ p, (s.sched_qs p).toList = [] := fun p => not_not.mp fun h => hsched ⟨p, h⟩
    by_cases hpending : (s.pending_qs 0).toList = []
    · cases hclient : s.clients 0 with
      | submitting txn => exact puts hclient hpending
      | idle =>
          refine advances_of_loop hclients ho hup hquiet hheld hsched (.inr ?_)
          by_contra hnone
          have hdone : ∀ p, (s.done_qs p).toList = [] := fun p => not_not.mp fun h => hnone ⟨p, h⟩
          refine hne ?_
          simp [remaining, puppetRemaining, hclient, hpending, ClientPC.carried,
            SchedulerPC.remaining_of_quiet hquiet, WorkerPC.remaining_of_held (hheld _), hsched, hdone]
    · exact advances_of_loop hclients ho hup hquiet hheld hsched (.inl hpending)
  · obtain ⟨t, ht⟩ := exists_scheduler_step cfg hup.2.1 ho.not_failed
    rcases scheduler_moves ho (fires_of_scheduler ht) with hless | ⟨hquiet', -⟩
    · exact ⟨[.scheduler], t, Run.single (own_scheduler ht), hless⟩
    · exact absurd hquiet' hquiet

theorem submitted_of_own {label : Label} (h : Own cfg s label t) :
    t.submitted = s.submitted ∧ (s.scheduler_running = true → t.scheduler_running = true) := by
  have hown := h.2
  cases fires_of_step h.1 with
  | submit | shutdown => simp [Label.own] at hown
  | _ => exact ⟨rfl, fun hup => hup⟩

theorem own_keeps {labels : List Label} (hrun : Run (Own cfg) s labels t) (ho : Orderly cfg s)
    (hup : s.Running) : Orderly cfg t ∧ t.Running ∧ t.submitted = s.submitted := by
  refine hrun.invariant (fun t => Orderly cfg t ∧ t.Running ∧ t.submitted = s.submitted) ⟨ho, hup, rfl⟩ ?_
  rintro u label v ⟨hou, hupu, hsubmitted⟩ hstep
  obtain ⟨hsame, hstill⟩ := submitted_of_own hstep
  exact ⟨hou.step (fires_of_step hstep.1), hupu.step hstep.1 (hstill hupu.1), hsame.trans hsubmitted⟩

theorem finishes (hclients : cfg.num_clients = 1) (ho : Orderly cfg s) (hup : s.Running) :
    ∃ labels t, Run (Own cfg) s labels t ∧ t.remaining = 0 := by
  induction hn : s.remaining using Nat.strong_induction_on generalizing s with
  | h n ih =>
    by_cases hzero : s.remaining = 0
    · exact ⟨[], s, .nil, hzero⟩
    obtain ⟨labels, t, hrun, hless⟩ := advances hclients ho hup hzero
    obtain ⟨hot, hupt, -⟩ := own_keeps hrun ho hup
    obtain ⟨more, u, hmore, hdone⟩ := ih t.remaining (hn ▸ hless) hot hupt rfl
    exact ⟨labels ++ more, u, hrun.append hmore, hdone⟩

-- With nothing left to do every transaction has gone through all the stages.
theorem logged_of_remaining (hlogged : Logged s) (hzero : s.remaining = 0) {serial : ℕ}
    (hlt : serial < s.submitted) : s.logged serial = stages := by
  have hmem : serial ∈ (inventory s.entered).map fun x => x.1.serial := by
    rw [Staged.numbered hlogged]
    exact Multiset.mem_range.mpr hlt
  obtain ⟨x, hx, rfl⟩ := Multiset.mem_map.mp hmem
  have hhistory : s.logged x.1.serial = stages.take x.2 := Staged.logged hlogged x hx
  simp only [remaining, Nat.add_eq_zero_iff, Nat.mul_eq_zero, Finset.sum_eq_zero_iff, Finset.mem_univ,
    true_implies, puppetRemaining, List.length_eq_zero_iff, OfNat.ofNat_ne_zero, or_false] at hzero
  obtain ⟨⟨⟨hcarried, hpending⟩, hpc⟩, hpuppets⟩ := hzero
  obtain ⟨place, hplace⟩ := mem_inventory.mp hx
  cases place with
  | client client =>
      obtain rfl : client = 0 := Subsingleton.elim _ _
      rw [entered, hcarried, hpending] at hplace
      exact absurd hplace List.not_mem_nil
  | puppet p =>
      obtain ⟨⟨hsched, hworker⟩, hdone⟩ := hpuppets p
      have hnone : (s.workers p).entered = [] := by
        cases hw : s.workers p <;> simp [hw, WorkerPC.remaining] at hworker <;> rfl
      rw [entered, hsched, hdone, hnone] at hplace
      exact absurd hplace List.not_mem_nil
  | scheduler =>
      have hnone : s.pc.entered = [] := by
        cases hp : s.pc <;> simp [hp, SchedulerPC.remaining] at hpc <;> rfl
      rw [entered, hnone, List.append_nil, trace, List.mem_filterMap] at hplace
      obtain ⟨call, -, hfinished⟩ := hplace
      rw [LogCall.finished, Option.ite_none_right_eq_some, Option.some.injEq] at hfinished
      rw [hhistory, ← hfinished.2]
      rfl

-- Before the shutdown no state is a dead end: without further calls the threads can bring every
-- transaction submitted so far to its end.
theorem can_finish {labels : List Label} {jobs : ℕ → Job} {handles : ℕ → Handle}
    (hclients : 0 < cfg.num_clients)
    (hrun : Run (Of (Scheduler.step cfg)) (Scheduler.init jobs handles) labels s)
    (hup : s.scheduler_running = true) :
    ∃ more t, Run (Own cfg) s more t ∧ t.submitted = s.submitted ∧
      ∀ serial < s.submitted, t.logged serial = stages := by
  have hone : cfg.num_clients = 1 := by
    have hle : cfg.num_clients ≤ 1 := cfg.num_clients_le
    omega
  have ho := Orderly.run hrun
  have hrunning := Running.run hrun hup
  obtain ⟨more, t, hmore, hzero⟩ := finishes hone ho hrunning
  have hsubmitted := (own_keeps hmore ho hrunning).2.2
  have hall : Run (Of (Scheduler.step cfg)) (Scheduler.init jobs handles) (labels ++ more) t :=
    hrun.append (hmore.mono fun _ _ _ h => h.1)
  exact ⟨more, t, hmore, hsubmitted, fun serial hlt =>
    logged_of_remaining (Logged.run hall) hzero (hsubmitted ▸ hlt)⟩

theorem can_finish_active : ∃ s, Run (Of (step twoPuppets)) initState activeRun s ∧
    ∃ more t, Run (Own twoPuppets) s more t ∧ t.submitted = s.submitted ∧
      ∀ serial < s.submitted, t.logged serial = stages := by
  have hexec : (exec (step twoPuppets) initState activeRun).any (fun s => s.scheduler_running) = true := by
    decide +kernel
  obtain ⟨s, hs, hup⟩ := (Option.any_eq_true _ _).mp hexec
  exact ⟨s, run_of_exec hs, can_finish Nat.one_pos (run_of_exec hs) hup⟩

end Scheduler

end Puppetmaster.Wrapper
