import Puppetmaster.Runner.Analyze.Windows
import Puppetmaster.Runner.Pmlog.Record
import Puppetmaster.Wrapper.Scheduler.Places

namespace Puppetmaster.Runner

open Library Library.Transition Wrapper Wrapper.Scheduler

namespace Timeline

def time (t : Timeline) : PmlogKind → ℕ
  | .SUBMIT => t.submit
  | .SCHED_READY => t.sched
  | .WORK_RECV => t.work
  | .DONE => t.done
  | .CLEANUP => t.cleanup

theorem complete_iff {t : Timeline} : t.complete ↔ ∀ kind, t.time kind ≠ 0 := by
  unfold complete
  constructor
  · intro h kind
    cases kind <;> simp only [time] <;> omega
  · intro h
    have hsubmit := h .SUBMIT
    have hsched := h .SCHED_READY
    have hwork := h .WORK_RECV
    have hdone := h .DONE
    have hcleanup := h .CLEANUP
    simp only [time] at hsubmit hsched hwork hdone hcleanup
    omega

theorem record_kind (t : Timeline) {e : PmlogEvt} {kind : PmlogKind} (h : e.kind = kindValue kind) :
    ∃ t', t.record e = .ok t' ∧ t'.time kind = e.tsc.toNat ∧ ∀ other ≠ kind, t'.time other = t.time other := by
  unfold record
  rw [h]
  cases kind <;> refine ⟨_, rfl, rfl, fun other hother => ?_⟩ <;> cases other <;>
    first | rfl | exact absurd rfl hother

end Timeline

theorem kindValue_inj {a b : PmlogKind} (h : kindValue a = kindValue b) : a = b := by
  cases a <;> cases b <;> first | rfl | simp [kindValue] at h

-- The time of a kind is that of some event, or there is no event of it.
def Witnessed {n : ℕ} (evts : List PmlogEvt) (tl : Fin n → Timeline) : Prop :=
  ∀ i kind, (∃ e ∈ evts, e.txn_id.toNat = i.val ∧ e.kind = kindValue kind ∧
      (tl i).time kind = e.tsc.toNat) ∨
    ((∀ e ∈ evts, e.txn_id.toNat = i.val → e.kind ≠ kindValue kind) ∧ (tl i).time kind = 0)

theorem witnessed_timelines {n : ℕ} {evts : List PmlogEvt}
    (hknown : ∀ e ∈ evts, e.txn_id.toNat < n ∧ ∃ kind, e.kind = kindValue kind) :
    ∃ tl, timelines n evts = .ok tl ∧ Witnessed evts tl := by
  induction evts using List.reverseRecOn with
  | nil =>
      refine ⟨_, rfl, fun i kind => .inr ⟨fun e he => absurd he List.not_mem_nil, ?_⟩⟩
      cases kind <;> rfl
  | append_singleton evts e ih =>
      obtain ⟨tl, htl, hwitnessed⟩ := ih fun e he => hknown e (List.mem_append_left _ he)
      obtain ⟨hid, kind, hkind⟩ := hknown e (List.mem_append_right _ List.mem_cons_self)
      obtain ⟨t', ht', htime, hother⟩ := Timeline.record_kind (tl ⟨e.txn_id.toNat, hid⟩) hkind
      have hrecord : recordEvt tl e = .ok (Function.update tl ⟨e.txn_id.toNat, hid⟩ t') := by
        rw [recordEvt, dif_pos hid, ht']
        rfl
      refine ⟨Function.update tl ⟨e.txn_id.toNat, hid⟩ t', ?_, fun i k => ?_⟩
      · rw [timelines, List.foldlM_append, ← timelines, htl, ok_bind, List.foldlM_cons, hrecord]
        rfl
      by_cases hnew : i.val = e.txn_id.toNat ∧ k = kind
      · obtain ⟨hi, rfl⟩ := hnew
        obtain rfl : i = ⟨e.txn_id.toNat, hid⟩ := Fin.ext hi
        refine .inl ⟨e, List.mem_append_right _ List.mem_cons_self, rfl, hkind, ?_⟩
        rw [Function.update_self, htime]
      · have hsame : (Function.update tl ⟨e.txn_id.toNat, hid⟩ t' i).time k = (tl i).time k := by
          by_cases hi : i = ⟨e.txn_id.toNat, hid⟩
          · subst hi
            rw [Function.update_self]
            exact hother k fun heq => hnew ⟨rfl, heq⟩
          · rw [Function.update_of_ne hi]
        rw [hsame]
        refine (hwitnessed i k).imp ?_ ?_
        · rintro ⟨e', he', hboth⟩
          exact ⟨e', List.mem_append_left _ he', hboth⟩
        · rintro ⟨hnone, hzero⟩
          refine ⟨fun e' he' hi hk => ?_, hzero⟩
          rcases List.mem_append.mp he' with he' | he'
          · exact hnone e' he' hi hk
          · obtain rfl := List.mem_singleton.mp he'
            exact hnew ⟨hi.symm, kindValue_inj (hk.symm.trans hkind)⟩

-- The transactions submitted are the first of the workload, whose ids are their places in it.
structure Replays (wl : Workload) (labels : List Label) : Prop where
  submitted : submissions labels <+: List.ofFn wl.txns
  indexed : ∀ i, (wl.txns i).id.toNat = i.val

-- The clock that stamps the log calls never goes back, and it advances between two calls of
-- the scheduler thread.
structure Stamps (clock : ℕ → BitVec 64) (log : List LogCall) : Prop where
  ne_zero : ∀ n, n < log.length → clock n ≠ 0
  mono : ∀ m n, m ≤ n → n < log.length → (clock m).toNat ≤ (clock n).toNat
  ready : ∀ m n a b, log[m]? = some a → log[n]? = some b → a.kind = .SCHED_READY →
    b.kind = .SCHED_READY → clock m = clock n → m = n

section

variable {cfg : Config} {s : Scheduler} {labels : List Label} {jobs : ℕ → Job} {handles : ℕ → Handle}
  {wl : Workload} {clock : ℕ → BitVec 64} {sample_period : BitVec 32} {evts : List PmlogEvt}
  {tl : Fin wl.num_txns → Timeline}

theorem Replays.id_eq (h : Replays wl labels)
    (hrun : Run (Of (Scheduler.step cfg)) (init jobs handles) labels s) {p : ℕ} {call : LogCall}
    (hp : s.log[p]? = some call) : ∃ hlt : call.handle.serial < wl.num_txns,
      (submissions labels)[call.handle.serial]? = some (wl.txns ⟨call.handle.serial, hlt⟩) ∧
        call.handle.id = (wl.txns ⟨call.handle.serial, hlt⟩).id := by
  obtain ⟨txn, htxn, hid⟩ := handle_eq hrun hp
  obtain ⟨hlt, hget⟩ := List.getElem?_eq_some_iff.mp htxn
  have hlength := h.submitted.length_le
  rw [List.length_ofFn] at hlength
  have heq : txn = wl.txns ⟨call.handle.serial, by omega⟩ := by
    rw [← hget, h.submitted.getElem hlt, List.getElem_ofFn]
  exact ⟨by omega, by rw [htxn, heq], by rw [hid, heq]⟩

-- A time of a time line is that of an entry of the log.
structure Placed (s : Scheduler) (clock : ℕ → BitVec 64) (sample_period : BitVec 32) (i : ℕ)
    (kind : PmlogKind) (now p : ℕ) (call : LogCall) : Prop where
  entry : s.log[p]? = some call
  serial : call.handle.serial = i
  kind : call.kind = kind
  sampled : Sampled sample_period call.handle.id
  time : now = (clock p).toNat

theorem Placed.lt_length {i now p : ℕ} {kind : PmlogKind} {call : LogCall}
    (h : Placed s clock sample_period i kind now p call) : p < s.log.length :=
  (List.getElem?_eq_some_iff.mp h.entry).1

variable (hrun : Run (Of (Scheduler.step cfg)) (init jobs handles) labels s) (h : Replays wl labels)
  (hevts : ∀ e, e ∈ evts ↔ e ∈ sampledEvts sample_period (stamped clock s.log))

include hrun h hevts

theorem known_of_sampled {e : PmlogEvt} (he : e ∈ evts) :
    e.txn_id.toNat < wl.num_txns ∧ ∃ kind, e.kind = kindValue kind := by
  obtain ⟨p, call, hp, -, rfl⟩ := mem_sampledEvts.mp ((hevts e).mp he)
  obtain ⟨hlt, -, hid⟩ := h.id_eq hrun hp
  refine ⟨?_, call.kind, rfl⟩
  show call.handle.id.toNat < _
  rw [hid, h.indexed]
  exact hlt

variable (htl : Witnessed evts tl)

include htl

theorem placed_of_time {i : Fin wl.num_txns} {kind : PmlogKind} (htime : (tl i).time kind ≠ 0) :
    ∃ p call, Placed s clock sample_period i.val kind ((tl i).time kind) p call := by
  rcases htl i kind with ⟨e, he, hid, hkind, hnow⟩ | ⟨-, hzero⟩
  · obtain ⟨p, call, hp, hsampled, rfl⟩ := mem_sampledEvts.mp ((hevts e).mp he)
    obtain ⟨hlt, -, hid'⟩ := h.id_eq hrun hp
    refine ⟨p, call, hp, ?_, kindValue_inj hkind, hsampled, hnow⟩
    rw [← hid]
    show _ = call.handle.id.toNat
    rw [hid', h.indexed]
  · exact absurd hzero htime

theorem time_ne_zero (hclock : Stamps clock s.log) {i : Fin wl.num_txns} {kind : PmlogKind}
    (hentered : Entered kind s.log i.val) (hsampled : Sampled sample_period (wl.txns i).id) :
    (tl i).time kind ≠ 0 := by
  obtain ⟨call, hcall, hserial, hkind⟩ := hentered
  obtain ⟨p, hp⟩ := List.getElem?_of_mem hcall
  obtain ⟨hlt, -, hid⟩ := h.id_eq hrun hp
  obtain rfl : i = ⟨call.handle.serial, hlt⟩ := Fin.ext hserial.symm
  rcases htl ⟨call.handle.serial, hlt⟩ kind with ⟨e, he, -, -, hnow⟩ | ⟨hnone, -⟩
  · obtain ⟨q, other, hq, -, rfl⟩ := mem_sampledEvts.mp ((hevts e).mp he)
    rw [hnow]
    intro hzero
    exact hclock.ne_zero q (List.getElem?_eq_some_iff.mp hq).1 (BitVec.eq_of_toNat_eq hzero)
  · refine absurd (congrArg kindValue hkind) (hnone (pmlogEvt (clock p) call) ?_ ?_)
    · exact (hevts _).mpr (mem_sampledEvts.mpr ⟨p, call, hp, hid ▸ hsampled, rfl⟩)
    · show call.handle.id.toNat = _
      rw [hid, h.indexed]

theorem time_le (hclock : Stamps clock s.log) {i : Fin wl.num_txns} {m n : ℕ} {a b : PmlogKind}
    (hmn : m ≤ n) (hm : stages[m]? = some a) (hn : stages[n]? = some b) (ha : (tl i).time a ≠ 0)
    (hb : (tl i).time b ≠ 0) : (tl i).time a ≤ (tl i).time b := by
  obtain ⟨p, call, hp⟩ := placed_of_time hrun h hevts htl ha
  obtain ⟨q, other, hq⟩ := placed_of_time hrun h hevts htl hb
  rw [hp.time, hq.time]
  refine hclock.mono p q (place_le hrun hp.entry hq.entry (hp.serial.trans hq.serial.symm) hmn ?_ ?_)
    hq.lt_length
  · rw [hp.kind, hm]
  · rw [hq.kind, hn]

theorem ordered_of_complete (hclock : Stamps clock s.log) {i : Fin wl.num_txns}
    (hcomplete : (tl i).complete) : (tl i).ordered := by
  have hne := Timeline.complete_iff.mp hcomplete
  have hle := fun m n a b (hmn : m ≤ n) hm hn =>
    time_le (m := m) (n := n) hrun h hevts htl hclock hmn hm hn (hne a) (hne b)
  exact ⟨hcomplete, hle 0 1 .SUBMIT .SCHED_READY (by omega) rfl rfl,
    hle 1 2 .SCHED_READY .WORK_RECV (by omega) rfl rfl, hle 2 3 .WORK_RECV .DONE (by omega) rfl rfl,
    hle 3 4 .DONE .CLEANUP (by omega) rfl rfl⟩

theorem complete_iff_cleaned (hclock : Stamps clock s.log) {i : Fin wl.num_txns} :
    (tl i).complete ↔ Sampled sample_period (wl.txns i).id ∧ Entered .CLEANUP s.log i.val := by
  rw [Timeline.complete_iff]
  constructor
  · intro hne
    obtain ⟨p, call, hp⟩ := placed_of_time hrun h hevts htl (hne .CLEANUP)
    obtain ⟨hlt, -, hid⟩ := h.id_eq hrun hp.entry
    obtain rfl : i = ⟨call.handle.serial, hlt⟩ := Fin.ext hp.serial.symm
    exact ⟨hid ▸ hp.sampled, call, List.mem_of_getElem? hp.entry, rfl, hp.kind⟩
  · rintro ⟨hsampled, hcleaned⟩ kind
    obtain ⟨m, hm, hstage⟩ := stage_of_kind kind
    have hentered := entered_of_entered hrun hm hstage rfl List.prefix_rfl hcleaned
    exact time_ne_zero hrun h hevts htl hclock hentered hsampled

theorem distinctSched_of_run (hclock : Stamps clock s.log) : DistinctSched tl := by
  intro i j hi hj heq
  have hsched : (tl i).time .SCHED_READY ≠ 0 := fun hzero => hi.1 (.inl hzero)
  have hsched' : (tl j).time .SCHED_READY ≠ 0 := fun hzero => hj.1 (.inl hzero)
  obtain ⟨p, a, hp⟩ := placed_of_time hrun h hevts htl hsched
  obtain ⟨q, b, hq⟩ := placed_of_time hrun h hevts htl hsched'
  have hnow : (clock p).toNat = (clock q).toNat := by
    rw [← hp.time, ← hq.time]
    exact heq
  have hpq := hclock.ready p q a b hp.entry hq.entry hp.kind hq.kind (BitVec.eq_of_toNat_eq hnow)
  have hab : a = b := by
    have hentry := hp.entry
    rw [hpq, hq.entry, Option.some.injEq] at hentry
    exact hentry.symm
  exact Fin.ext (by rw [← hp.serial, ← hq.serial, hab])

-- A transaction that conflicts with one at work is scheduled before it or after its end.
theorem not_clash_of_run (hclock : Stamps clock s.log) (i j : Fin wl.num_txns) : ¬ Clash wl tl i j := by
  rintro ⟨hi, hj, hlt, hopen, hconflict⟩
  have hsched : (tl i).time .SCHED_READY ≠ 0 := fun hzero => hi.1 (.inl hzero)
  have hdone : (tl i).time .DONE ≠ 0 := fun hzero => hi.1 (.inr hzero)
  have hsched' : (tl j).time .SCHED_READY ≠ 0 := fun hzero => hj.1 (.inl hzero)
  obtain ⟨p, a, hp⟩ := placed_of_time hrun h hevts htl hsched
  obtain ⟨d, b, hd⟩ := placed_of_time hrun h hevts htl hdone
  obtain ⟨q, c, hq⟩ := placed_of_time hrun h hevts htl hsched'
  obtain ⟨hltp, hsubp, -⟩ := h.id_eq hrun hp.entry
  obtain ⟨hltq, hsubq, -⟩ := h.id_eq hrun hq.entry
  obtain rfl : i = ⟨a.handle.serial, hltp⟩ := Fin.ext hp.serial.symm
  obtain rfl : j = ⟨c.handle.serial, hltq⟩ := Fin.ext hq.serial.symm
  have hpq : p < q := by
    by_contra hle
    have hback := hclock.mono q p (Nat.not_lt.mp hle) hp.lt_length
    rw [← hp.time, ← hq.time] at hback
    exact absurd hlt (Nat.not_lt.mpr hback)
  have hdq : ¬ d < q := by
    intro hbefore
    have hback := hclock.mono d q hbefore.le hq.lt_length
    rw [← hd.time, ← hq.time] at hback
    exact absurd hopen (Nat.not_lt.mpr hback)
  rcases Nat.lt_trichotomy a.handle.serial c.handle.serial with hserial | hserial | hserial
  · refine hdq (place_lt_of_conflicting hrun hd.entry hq.entry (hd.serial ▸ hserial) ?_ hq.kind)
    rw [hd.serial]
    exact ⟨_, _, hsubp, hsubq, hconflict⟩
  · have hsame := place_inj hrun hp.entry hq.entry hserial (hp.kind.trans hq.kind.symm)
    omega
  · have hback := place_lt_of_conflicting hrun hq.entry hp.entry hserial
      ⟨_, _, hsubq, hsubp, by rw [check_txn_conflict_comm]; exact hconflict⟩ hp.kind
    omega

end

-- What the checks of analyze.c find in the log of a run.
structure Accepted (wl : Workload) (s : Scheduler) (sample_period : BitVec 32)
    (tl : Fin wl.num_txns → Timeline) : Prop where
  ordered : ∀ i, (tl i).complete → (tl i).ordered
  complete : ∀ i, (tl i).complete ↔
    Sampled sample_period (wl.txns i).id ∧ Entered .CLEANUP s.log i.val
  no_conflicts : ∀ num_puppets, (conflictChecks wl tl num_puppets).conflicts = 0

section

variable {cfg : Config} {s : Scheduler} {labels : List Label} {jobs : ℕ → Job} {handles : ℕ → Handle}
  {wl : Workload} {clock : ℕ → BitVec 64}

-- The log of a run fits into the buffer that main.c asks for, and analyze.c, which reads it
-- back from the file, finds every transaction in order and no conflict.
theorem analyze_accepts_run (hrun : Run (Of (Scheduler.step cfg)) (init jobs handles) labels s)
    (h : Replays wl labels) (hclock : Stamps clock s.log) (hsome : 0 < wl.num_txns)
    (hint : wl.num_txns * 6 < 2 ^ 31) (sample_period : BitVec 32) (pm : Pmlog) (memory : ℕ → PmlogEvt) :
    ∃ opened filled, pm.pmlog_init memory (wl.num_txns * 6) = .ok opened ∧
      opened.recordCalls sample_period (stamped clock s.log) = .ok filled ∧
      (filled.num_events ≠ 0 → ∀ r : Pmlog, ∃ r' tl, r.pmlog_read filled.pmlog_write.1 = .ok r' ∧
        timelines wl.num_txns r'.events = .ok tl ∧ Accepted wl s sample_period tl) := by
  have hlength : s.log.length ≤ s.submitted * stages.length := Staged.length_le (Logged.run hrun)
  have hsubmitted := h.submitted.length_le
  rw [← (submit_handle hrun).1, List.length_ofFn] at hsubmitted
  have hfive : stages.length = 5 := rfl
  rw [hfive] at hlength
  have hsampled := sampledEvts_length_le clock s.log sample_period
  let opened : Pmlog := { pm with
    max_num_events := wl.num_txns * 6
    num_events := 0
    pmlog_evt_buf := memory
    num_events_lt := by decide }
  have hopen : pm.pmlog_init memory (wl.num_txns * 6) = .ok opened := by
    rw [Pmlog.pmlog_init, if_pos (by omega)]
  have hroom : 0 + (sampledEvts sample_period (stamped clock s.log)).length ≤ wl.num_txns * 6 := by omega
  obtain ⟨filled, hfilled, hevents⟩ := Pmlog.recordCalls_ok (s := opened) _ hint hroom
  refine ⟨opened, filled, hopen, hfilled, fun hne r => ?_⟩
  obtain ⟨r', hread, -, -, -, hperm, -⟩ := Pmlog.readsBack_iff.mpr hne r
  have hevts : ∀ e, e ∈ r'.events ↔ e ∈ sampledEvts sample_period (stamped clock s.log) := by
    intro e
    rw [hperm.mem_iff, hevents]
    exact Iff.rfl
  obtain ⟨tl, htl, hwitnessed⟩ :=
    witnessed_timelines fun e he => known_of_sampled hrun h hevts he
  refine ⟨r', tl, hread, htl, fun i => ordered_of_complete hrun h hevts hwitnessed hclock,
    fun i => complete_iff_cleaned hrun h hevts hwitnessed hclock, fun num_puppets => ?_⟩
  by_contra hconflicts
  have hdistinct := distinctSched_of_run hrun h hevts hwitnessed hclock
  obtain ⟨i, j, hclash, -⟩ := (conflictChecks_conflicts hdistinct).mp hconflicts
  exact not_clash_of_run hrun h hevts hwitnessed hclock i j hclash

end

-- The transactions of a run in which two are worked on at the same time.
def overlapping : Workload where
  num_txns := 3
  txns i := Txn.writing i.val (if i.val = 1 then 2 else 1)
  num_txns_lt := three_lt_limit

theorem replays_overlapping : Replays overlapping overlappingRun := ⟨⟨[], rfl⟩, by decide⟩

theorem stamps_overlapping : Stamps (fun n => BitVec.ofNat 64 (n + 1)) overlappingLog := by
  have hnow : ∀ n < 13, (BitVec.ofNat 64 (n + 1)).toNat = n + 1 := fun n hn =>
    Nat.mod_eq_of_lt (by omega)
  refine ⟨fun n hn hzero => ?_, fun m n hmn hn => ?_, fun m n a b hm hn _ _ heq => ?_⟩
  · have htoNat := hnow n hn
    rw [hzero] at htoNat
    exact absurd htoNat (by simp)
  · have hn : n < 13 := hn
    rw [hnow m (by omega), hnow n hn]
    omega
  · have hm : m < 13 := (List.getElem?_eq_some_iff.mp hm).1
    have hn : n < 13 := (List.getElem?_eq_some_iff.mp hn).1
    have htoNat := congrArg BitVec.toNat heq
    rw [hnow m hm, hnow n hn] at htoNat
    omega

theorem analyze_accepts_run_overlapping :
    ∃ s, Run (Of (step twoPuppets)) initState overlappingRun s ∧
      ∃ opened filled, Pmlog.emptyLog.pmlog_init (fun _ => ⟨0, 0, 0, 0⟩) (overlapping.num_txns * 6) =
          .ok opened ∧
        opened.recordCalls 1 (stamped (fun n => BitVec.ofNat 64 (n + 1)) s.log) = .ok filled ∧
        (filled.num_events ≠ 0 → ∀ r : Pmlog, ∃ r' tl, r.pmlog_read filled.pmlog_write.1 = .ok r' ∧
          timelines overlapping.num_txns r'.events = .ok tl ∧ Accepted overlapping s 1 tl) := by
  obtain ⟨s, hrun, hlog⟩ := overlappingRun_reaches
  exact ⟨s, hrun, analyze_accepts_run hrun replays_overlapping (hlog ▸ stamps_overlapping) (by decide)
    (by decide) 1 _ _⟩

end Puppetmaster.Runner
