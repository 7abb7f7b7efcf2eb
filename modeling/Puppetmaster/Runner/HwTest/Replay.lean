import Puppetmaster.Runner.HwTest
import Puppetmaster.Runner.Hwlog2bin.Transcript
import Puppetmaster.Runner.Analyze.Replay

namespace Puppetmaster.Runner

open Library Library.Transition Wrapper Hardware Hardware.Connectal
open Wrapper.Scheduler (stages stage_of_kind)

section

variable {wl : Workload} {c : Connectal}

-- What the lines of the hardware are like for a program that has asked for the transactions of
-- a workload.
structure Printed (wl : Workload) (c : Connectal) : Prop where
  told : ∀ txnId, ∃ pid, c.told txnId <+: course pid
  sorted : c.lines.Pairwise fun a b => a.cycle.toNat ≤ b.cycle.toNat
  apart : c.scheduledLines.Pairwise fun a b => a.cycle.toNat < b.cycle.toNat
  known : ∀ l ∈ c.lines, ∃ i, l.txnId = (wl.txns i).id
  finished : ∀ i j, check_txn_conflict (wl.txns i) (wl.txns j) = true → ∀ a b : ℕ, a < b →
    (scheduledIds c.lines)[a]? = some (wl.txns i).id → (scheduledIds c.lines)[b]? = some (wl.txns j).id →
    ∀ front, front <+: c.lines → b < (scheduledIds front).length → Reached .DONE front a

variable (h : Printed wl c)

include h

theorem Printed.history_le (txnId : TransactionId) :
    history (BitVec.toNat ∘ HwLine.txnId) (HwEvent.kind ∘ HwLine.event) c.lines txnId.toNat <+: stages := by
  obtain ⟨pid, htold⟩ := h.told txnId
  rw [told_eq_history] at htold
  have hkinds : (course pid).map HwEvent.kind = stages := rfl
  have hmap := htold.map HwEvent.kind
  rwa [hkinds, history, List.map_map] at hmap

theorem Printed.eq_of_kind {a b : HwLine} (ha : a ∈ c.lines) (hb : b ∈ c.lines)
    (hid : a.txnId = b.txnId) (hkind : a.event.kind = b.event.kind) : a = b := by
  obtain ⟨m, -, hstage⟩ := stage_of_kind b.event.kind
  have hstage' : stages[m]? = some a.event.kind := by rwa [hkind]
  exact eq_of_history (h.history_le b.txnId) (by decide) ha hb (congrArg BitVec.toNat hid) rfl hstage' hstage

theorem Printed.cycle_le {a b : HwLine} (ha : a ∈ c.lines) (hb : b ∈ c.lines) (hid : a.txnId = b.txnId)
    {m n : ℕ} (hmn : m < n) (hm : stages[m]? = some a.event.kind) (hn : stages[n]? = some b.event.kind) :
    a.cycle.toNat ≤ b.cycle.toNat :=
  related_of_history h.sorted (h.history_le b.txnId) (by decide) ha hb (congrArg BitVec.toNat hid) rfl
    hmn hm hn

theorem Printed.length_le (hindexed : ∀ i, (wl.txns i).id.toNat = i.val) :
    c.lines.length ≤ wl.num_txns * 5 := by
  have hle : ∀ n, (history (BitVec.toNat ∘ HwLine.txnId) (HwEvent.kind ∘ HwLine.event) c.lines n).length ≤ 5 := by
    intro n
    by_cases hnone : c.lines.filter (fun l => (BitVec.toNat ∘ HwLine.txnId) l = n) = []
    · rw [history, hnone]
      exact Nat.zero_le _
    · obtain ⟨l, hl⟩ := List.exists_mem_of_ne_nil _ hnone
      obtain rfl := of_decide_eq_true (List.mem_filter.mp hl).2
      exact (h.history_le l.txnId).length_le
  refine length_le_of_history hle wl.num_txns fun l hl => ?_
  obtain ⟨i, hi⟩ := h.known l hl
  rw [Function.comp_apply, hi, hindexed]
  exact i.isLt

-- A removed transaction has a line of every kind.
theorem Printed.mentions_of_removed {txnId : TransactionId} (hremoved : Mentions .CLEANUP c.lines txnId)
    (kind : PmlogKind) : Mentions kind c.lines txnId := by
  obtain ⟨pid, htold⟩ := told_of_removed (h.told txnId) hremoved
  rw [mentions_iff, htold]
  cases kind <;> simp [course, HwEvent.kind]

-- A transaction that is scheduled while one that it conflicts with is at work.
theorem Printed.done_le {i j : Fin wl.num_txns} (hconflict : check_txn_conflict (wl.txns i) (wl.txns j) = true)
    {a d b : HwLine} (ha : a ∈ c.lines) (hd : d ∈ c.lines) (hb : b ∈ c.lines) (hai : a.txnId = (wl.txns i).id)
    (hdi : d.txnId = (wl.txns i).id) (hbj : b.txnId = (wl.txns j).id) (hakind : a.event.kind = .SCHED_READY)
    (hdkind : d.event.kind = .DONE) (hbkind : b.event.kind = .SCHED_READY)
    (hlt : a.cycle.toNat < b.cycle.toNat) : d.cycle.toNat ≤ b.cycle.toNat := by
  obtain ⟨front, back, hsplit⟩ := List.append_of_mem hb
  have hsorted := h.sorted
  rw [hsplit, List.pairwise_append, List.pairwise_cons] at hsorted
  have hafront : a ∈ front := by
    rw [hsplit, List.mem_append, List.mem_cons] at ha
    rcases ha with ha | rfl | ha
    · exact ha
    · omega
    · have hle := hsorted.2.1.1 a ha
      omega
  have hsnoc : scheduledIds (front ++ [b]) = scheduledIds front ++ [b.txnId] :=
    trace_snoc_some scheduledId front (if_pos hbkind)
  have hfront : front ++ [b] <+: c.lines := ⟨back, by rw [hsplit, List.append_assoc]; rfl⟩
  have hids : scheduledIds (front ++ [b]) <+: scheduledIds c.lines := hfront.filterMap scheduledId
  have hscheduled : a.txnId ∈ scheduledIds front :=
    List.mem_filterMap.mpr ⟨a, hafront, if_pos hakind⟩
  obtain ⟨k, hk, hget⟩ := List.getElem_of_mem hscheduled
  have hsnock : (scheduledIds (front ++ [b]))[k]? = some a.txnId := by
    rw [hsnoc, List.getElem?_append_left hk, List.getElem?_eq_getElem hk, hget]
  have hsnocb : (scheduledIds (front ++ [b]))[(scheduledIds front).length]? = some b.txnId := by
    rw [hsnoc, List.getElem?_concat_length]
  obtain ⟨rest, hrest⟩ := hids
  have hall : ∀ {p : ℕ} {txnId : TransactionId}, (scheduledIds (front ++ [b]))[p]? = some txnId →
      (scheduledIds c.lines)[p]? = some txnId := by
    intro p txnId hp
    rw [← hrest, List.getElem?_append_left (List.getElem?_eq_some_iff.mp hp).1, hp]
  have hreached := h.finished i j hconflict k _ hk (hai ▸ hall hsnock) (hbj ▸ hall hsnocb) _ hfront
    (by rw [hsnoc, List.length_append]; exact Nat.lt_succ_self _)
  obtain ⟨txnId, hkth, l, hl, hlid, hlkind⟩ := hreached
  obtain rfl := Option.some.inj (hsnock.symm.trans hkth)
  obtain rfl := h.eq_of_kind hd (hfront.subset hl) (hdi.trans (hlid.trans hai).symm) (hdkind.trans hlkind.symm)
  rcases List.mem_append.mp hl with hl | hl
  · exact hsorted.2.2 d hl b List.mem_cons_self
  · rw [List.mem_singleton.mp hl]

end

section

variable {wl : Workload} {sim_cycles txn_cycles : BitVec 32} {answer : TopConfig}
  {requests labels : List Connectal.Label} {c : Connectal} {isCompat : Bool} {main shadow : TxnFingerprint}
  {driver executor : TIndex}

theorem Asks.put_eq (h : Asks wl sim_cycles txn_cycles answer requests) :
    trace Label.put requests = (List.ofFn wl.txns).map Hardware.addTransaction := by
  have hinserts : trace Label.put ((List.ofFn wl.txns).map fun txn => .addTransaction (Hardware.addTransaction txn)) =
      (List.ofFn wl.txns).map Hardware.addTransaction := by
    rw [trace, List.filterMap_map, ← List.filterMap_eq_map]
    rfl
  rw [h.requests_eq, trace, List.filterMap_append, List.filterMap_append, ← trace, ← trace, hinserts]
  exact List.append_nil _

variable (hasks : Asks wl sim_cycles txn_cycles answer requests) (hindexed : ∀ i, (wl.txns i).id.toNat = i.val)
  (hrun : Run (Covering 8) (Connectal.configured isCompat main shadow driver executor initConfig) labels c)
  (hrequests : trace Label.request labels <+: requests)

include hasks hrequests

theorem put_sent : trace Label.put labels <+: (List.ofFn wl.txns).map Hardware.addTransaction := by
  rw [put_requests, ← hasks.put_eq]
  exact hrequests.filterMap _

theorem exists_of_put {txn : Transaction} (h : txn ∈ trace Label.put labels) :
    ∃ i, txn = Hardware.addTransaction (wl.txns i) := by
  obtain ⟨sent, hsent, rfl⟩ := List.mem_map.mp ((put_sent hasks hrequests).subset h)
  obtain ⟨i, rfl⟩ := List.mem_ofFn.mp hsent
  exact ⟨i, rfl⟩

include hindexed

theorem added_nodup : (trace Label.added labels).Nodup := by
  have hsent := (put_sent hasks hrequests).map Transaction.txnId
  rw [← added_put, List.map_map, List.map_ofFn] at hsent
  refine (List.nodup_ofFn.mpr fun i j hij => ?_).sublist hsent.sublist
  have hids : (wl.txns i).id = (wl.txns j).id := hij
  exact Fin.ext (by rw [← hindexed i, ← hindexed j, hids])

include hrun

theorem exists_of_admitted {k : ℕ} {i : Fin wl.num_txns}
    (hk : (scheduledIds c.lines)[k]? = some (wl.txns i).id) :
    ∃ txn, (trace Label.admitted labels)[k]? = some txn ∧ txn.source.txn = Hardware.addTransaction (wl.txns i) := by
  rw [(Settled.run simulates_initConfig hrun).2.printed, List.getElem?_map] at hk
  obtain ⟨txn, htxn, hid⟩ := Option.map_eq_some_iff.mp hk
  have hkeeps : Run (Keeping 8) _ labels c := hrun.mono fun _ _ _ h => ⟨h.1, h.2.1⟩
  obtain ⟨j, hj⟩ := exists_of_put hasks hrequests
    (admitted_put simulates_initConfig hkeeps (List.mem_of_getElem? htxn))
  have hids : (wl.txns j).id = (wl.txns i).id := by
    rw [← hid, txn.hashed, hj]
    rfl
  obtain rfl : j = i := Fin.ext (by rw [← hindexed i, ← hindexed j, hids])
  exact ⟨txn, htxn, hj⟩

theorem Printed.of_run (hlt : elapsed labels < 2 ^ 64) : Printed wl c := by
  have hkeeps : Run (Keeping 8) _ labels c := hrun.mono fun _ _ _ h => ⟨h.1, h.2.1⟩
  have hdistinct := added_nodup hasks hindexed hrequests
  refine ⟨told_along_course simulates_initConfig hkeeps hdistinct, (Timed.run simulates_initConfig hkeeps hlt).sorted,
    (Spaced.run simulates_initConfig hkeeps hlt).apart, fun l hl => ?_, ?_⟩
  · have hadded := (OnCourse.run simulates_initConfig hkeeps hdistinct).known l hl
    rw [added_put] at hadded
    obtain ⟨txn, htxn, hid⟩ := List.mem_map.mp hadded
    obtain ⟨i, rfl⟩ := exists_of_put hasks hrequests htxn
    exact ⟨i, hid.symm⟩
  · intro i j hconflict a b hab ha hb front hfront hscheduled
    obtain ⟨x, hx, hxi⟩ := exists_of_admitted hasks hindexed hrun hrequests ha
    obtain ⟨y, hy, hyj⟩ := exists_of_admitted hasks hindexed hrun hrequests hb
    refine finished_before_scheduled simulates_initConfig hrun hdistinct hab ⟨x, y, hx, hy, ?_⟩ hfront hscheduled
    rw [hxi, hyj]
    exact conflict_of_check_txn_conflict (pmhw_schedule_eq_some.mpr ⟨hasks.objs_le i, rfl⟩)
      (pmhw_schedule_eq_some.mpr ⟨hasks.objs_le j, rfl⟩) hconflict

end

section

variable {wl : Workload} {c : Connectal} {evts : List PmlogEvt} {tl : Fin wl.num_txns → Timeline}
  {min_tsc : BitVec 64}

-- The time of a line as hwlog2bin writes it.
def stamp (min_tsc : BitVec 64) (l : HwLine) : ℕ := (shifted min_tsc l.cycle).toNat

-- What hwlog2bin makes of the lines.
structure Converted (c : Connectal) (min_tsc : BitVec 64) (evts : List PmlogEvt) : Prop where
  stamp_eq : ∀ l ∈ c.lines, min_tsc.toNat ≤ l.cycle.toNat ∧
    stamp min_tsc l = l.cycle.toNat - min_tsc.toNat + 1
  mem_iff : ∀ e, e ∈ evts ↔ ∃ l ∈ c.lines, { l.evt with tsc := shifted min_tsc l.cycle } = e

variable (h : Printed wl c) (hindexed : ∀ i, (wl.txns i).id.toNat = i.val)
  (hevts : Converted c min_tsc evts)

include hevts

theorem Converted.stamp_le_iff {a b : HwLine} (ha : a ∈ c.lines) (hb : b ∈ c.lines) :
    stamp min_tsc a ≤ stamp min_tsc b ↔ a.cycle.toNat ≤ b.cycle.toNat := by
  obtain ⟨hamin, haeq⟩ := hevts.stamp_eq a ha
  obtain ⟨hbmin, hbeq⟩ := hevts.stamp_eq b hb
  omega

include h hindexed

theorem known_of_converted {e : PmlogEvt} (he : e ∈ evts) :
    e.txn_id.toNat < wl.num_txns ∧ ∃ kind, e.kind = kindValue kind := by
  obtain ⟨l, hl, rfl⟩ := (hevts.mem_iff e).mp he
  obtain ⟨i, hi⟩ := h.known l hl
  refine ⟨?_, l.event.kind, rfl⟩
  show l.txnId.toNat < _
  rw [hi, hindexed]
  exact i.isLt

variable (htl : Witnessed evts tl)

include htl

theorem line_of_time {i : Fin wl.num_txns} {kind : PmlogKind} (htime : (tl i).time kind ≠ 0) :
    ∃ l ∈ c.lines, l.txnId = (wl.txns i).id ∧ l.event.kind = kind ∧ (tl i).time kind = stamp min_tsc l := by
  rcases htl i kind with ⟨e, he, hid, hkind, hnow⟩ | ⟨-, hzero⟩
  · obtain ⟨l, hl, rfl⟩ := (hevts.mem_iff e).mp he
    obtain ⟨j, hj⟩ := h.known l hl
    have hij : j = i := by
      have hid : l.txnId.toNat = i.val := hid
      rw [hj, hindexed] at hid
      exact Fin.ext hid
    exact ⟨l, hl, hij ▸ hj, kindValue_inj hkind, hnow⟩
  · exact absurd hzero htime

omit h in
theorem time_ne_zero_of_line {l : HwLine} (hl : l ∈ c.lines) {i : Fin wl.num_txns}
    (hi : l.txnId = (wl.txns i).id) : (tl i).time l.event.kind ≠ 0 := by
  rcases htl i l.event.kind with ⟨e, he, -, -, hnow⟩ | ⟨hnone, -⟩
  · obtain ⟨l', hl', rfl⟩ := (hevts.mem_iff e).mp he
    have heq := (hevts.stamp_eq l' hl').2
    rw [hnow]
    show stamp min_tsc l' ≠ 0
    omega
  · refine absurd rfl (hnone _ ((hevts.mem_iff _).mpr ⟨l, hl, rfl⟩) ?_)
    show l.txnId.toNat = _
    rw [hi, hindexed]

theorem time_le_of_stage {i : Fin wl.num_txns} {m n : ℕ} {a b : PmlogKind} (hmn : m < n)
    (hm : stages[m]? = some a) (hn : stages[n]? = some b) (ha : (tl i).time a ≠ 0) (hb : (tl i).time b ≠ 0) :
    (tl i).time a ≤ (tl i).time b := by
  obtain ⟨l, hl, hli, rfl, hnow⟩ := line_of_time h hindexed hevts htl ha
  obtain ⟨l', hl', hli', rfl, hnow'⟩ := line_of_time h hindexed hevts htl hb
  rw [hnow, hnow', hevts.stamp_le_iff hl hl']
  exact h.cycle_le hl hl' (hli.trans hli'.symm) hmn hm hn

theorem ordered_of_printed {i : Fin wl.num_txns} (hcomplete : (tl i).complete) : (tl i).ordered := by
  have hne := Timeline.complete_iff.mp hcomplete
  have hle := fun m n a b (hmn : m < n) hm hn =>
    time_le_of_stage (m := m) (n := n) h hindexed hevts htl hmn hm hn (hne a) (hne b)
  exact ⟨hcomplete, hle 0 1 .SUBMIT .SCHED_READY (by omega) rfl rfl,
    hle 1 2 .SCHED_READY .WORK_RECV (by omega) rfl rfl, hle 2 3 .WORK_RECV .DONE (by omega) rfl rfl,
    hle 3 4 .DONE .CLEANUP (by omega) rfl rfl⟩

theorem complete_iff_removed {i : Fin wl.num_txns} :
    (tl i).complete ↔ Mentions .CLEANUP c.lines (wl.txns i).id := by
  rw [Timeline.complete_iff]
  constructor
  · intro hne
    obtain ⟨l, hl, hli, hkind, -⟩ := line_of_time h hindexed hevts htl (hne .CLEANUP)
    exact ⟨l, hl, hli, hkind⟩
  · intro hremoved kind
    obtain ⟨l, hl, hli, rfl⟩ := h.mentions_of_removed hremoved kind
    exact time_ne_zero_of_line hindexed hevts htl hl hli

theorem distinctSched_of_printed : DistinctSched tl := by
  intro i j hi hj heq
  have hsched : (tl i).time .SCHED_READY ≠ 0 := fun hzero => hi.1 (.inl hzero)
  have hsched' : (tl j).time .SCHED_READY ≠ 0 := fun hzero => hj.1 (.inl hzero)
  obtain ⟨a, ha, hai, hakind, hnow⟩ := line_of_time h hindexed hevts htl hsched
  obtain ⟨b, hb, hbj, hbkind, hnow'⟩ := line_of_time h hindexed hevts htl hsched'
  have hstamp : stamp min_tsc a = stamp min_tsc b := by
    rw [← hnow, ← hnow']
    exact heq
  have hcycle : a.cycle.toNat = b.cycle.toNat := by
    have hle := (hevts.stamp_le_iff ha hb).mp hstamp.le
    have hge := (hevts.stamp_le_iff hb ha).mp hstamp.ge
    omega
  have hab : a = b := by
    by_contra hne
    have hsymm : Std.Symm fun x y : HwLine => x.cycle.toNat ≠ y.cycle.toNat := ⟨fun _ _ h => h.symm⟩
    have hdiffer : c.scheduledLines.Pairwise fun x y => x.cycle.toNat ≠ y.cycle.toNat := h.apart.imp ne_of_lt
    refine hdiffer.forall ?_ ?_ hne hcycle
    · exact List.mem_filter.mpr ⟨ha, decide_eq_true hakind⟩
    · exact List.mem_filter.mpr ⟨hb, decide_eq_true hbkind⟩
  have hids : (wl.txns i).id = (wl.txns j).id := by rw [← hai, hab, hbj]
  exact Fin.ext (by rw [← hindexed i, ← hindexed j, hids])

theorem not_clash_of_printed (i j : Fin wl.num_txns) : ¬ Clash wl tl i j := by
  rintro ⟨hi, hj, hlt, hopen, hconflict⟩
  have hsched : (tl i).time .SCHED_READY ≠ 0 := fun hzero => hi.1 (.inl hzero)
  have hdone : (tl i).time .DONE ≠ 0 := fun hzero => hi.1 (.inr hzero)
  have hsched' : (tl j).time .SCHED_READY ≠ 0 := fun hzero => hj.1 (.inl hzero)
  obtain ⟨a, ha, hai, hakind, hnow⟩ := line_of_time h hindexed hevts htl hsched
  obtain ⟨d, hd, hdi, hdkind, hnowd⟩ := line_of_time h hindexed hevts htl hdone
  obtain ⟨b, hb, hbj, hbkind, hnow'⟩ := line_of_time h hindexed hevts htl hsched'
  have hstamp : stamp min_tsc a < stamp min_tsc b := by
    rw [← hnow, ← hnow']
    exact hlt
  have hstamp' : stamp min_tsc b < stamp min_tsc d := by
    rw [← hnowd, ← hnow']
    exact hopen
  have hcycle : a.cycle.toNat < b.cycle.toNat := by
    by_contra hle
    have hback := (hevts.stamp_le_iff hb ha).mpr (Nat.not_lt.mp hle)
    omega
  have hback := (hevts.stamp_le_iff hd hb).mpr
    (h.done_le hconflict ha hd hb hai hdi hbj hakind hdkind hbkind hcycle)
  omega

end

theorem converted_of_timed {c : Connectal} (hcycle : ∀ l ∈ c.lines, l.cycle.toNat < 2 ^ 63) :
    Converted c (minTsc (c.lines.map HwLine.evt)) (qsort compare_events (rebase (c.lines.map HwLine.evt))) := by
  refine ⟨fun l hl => ⟨minTsc_le_cycle l hl, shifted_toNat (minTsc_le_cycle l hl) (hcycle l hl)⟩, fun e => ?_⟩
  rw [rebase_perm.mem_iff, List.mem_map]

-- What the checks of analyze.c find in what the hardware has printed.
structure AcceptedHw (wl : Workload) (c : Connectal) (tl : Fin wl.num_txns → Timeline) : Prop where
  ordered : ∀ i, (tl i).complete → (tl i).ordered
  complete : ∀ i, (tl i).complete ↔ Mentions .CLEANUP c.lines (wl.txns i).id
  no_conflicts : ∀ num_puppets, (conflictChecks wl tl num_puppets).conflicts = 0

section

variable {wl : Workload} {sim_cycles txn_cycles : BitVec 32} {answer : TopConfig}
  {requests labels : List Connectal.Label} {c : Connectal} {isCompat : Bool} {main shadow : TxnFingerprint}
  {driver executor : TIndex} {rows : List (List Char)}

-- hwlog2bin makes of what the hardware prints for hw_test a log in which analyze.c finds every
-- transaction in order and no conflict.
theorem analyze_accepts_hw_test (hprogram : hw_test wl sim_cycles txn_cycles answer = .ok requests)
    (hindexed : ∀ i, (wl.txns i).id.toNat = i.val)
    (hrun : Run (Meeting Connectal.step fun c label => label.covered c)
      (Connectal.reset isCompat main shadow driver executor) labels c)
    (hrequests : trace Label.request labels <+: requests) (hlt : elapsed labels < 2 ^ 63)
    (htranscript : Transcript c.printed rows) (hsome : c.lines ≠ []) (fpga_freq : BitVec 64) (pm : Pmlog)
    (memory : ℕ → PmlogEvt) :
    ∃ file, hwlog2bin pm memory (rows.flatMap lineFeed) fpga_freq = .ok file ∧
      ∀ r : Pmlog, ∃ r' tl, r.pmlog_read file = .ok r' ∧
        timelines wl.num_txns r'.events = .ok tl ∧ AcceptedHw wl c tl := by
  have hasks := hw_test_eq_ok hprogram
  obtain ⟨hrun, -⟩ := Steered.run hasks hrun hrequests
  have hprinted := Printed.of_run hasks hindexed hrun hrequests (hlt.trans (by decide))
  have htimed := Timed.run simulates_initConfig (hrun.mono fun _ _ _ h => ⟨h.1, h.2.1⟩) (hlt.trans (by decide))
  have hevts := converted_of_timed fun l hl => (htimed.past l hl).trans_lt hlt
  have hlength : c.lines.length < 2 ^ 31 := by
    have hle : c.lines.length ≤ wl.num_txns * 5 := hprinted.length_le hindexed
    have hlimit := hasks.num_txns_lt
    omega
  let evts := qsort compare_events (rebase (c.lines.map HwLine.evt))
  have hperm : evts.length = c.lines.length := by
    rw [rebase_perm.length_eq, List.length_map]
  refine ⟨logFile 1 fpga_freq evts, ?_, fun r => ?_⟩
  · rw [hwlog2bin_congr pm memory fpga_freq (txnLines_transcript htranscript)]
    exact hwlog2bin_hwLog pm memory fpga_freq hsome hlength
  have hne : evts ≠ [] := by
    rw [← List.length_pos_iff, hperm, List.length_pos_iff]
    exact hsome
  obtain ⟨r', hread, hevents⟩ := Pmlog.pmlog_read_logFile r 1 fpga_freq hne (hperm ▸ hlength)
  obtain ⟨tl, htl, hwitnessed⟩ :=
    witnessed_timelines fun e he => known_of_converted hprinted hindexed hevts he
  refine ⟨r', tl, hread, hevents ▸ htl, fun i => ordered_of_printed hprinted hindexed hevts hwitnessed,
    fun i => complete_iff_removed hprinted hindexed hevts hwitnessed, fun num_puppets => ?_⟩
  by_contra hconflicts
  have hdistinct := distinctSched_of_printed hprinted hindexed hevts hwitnessed
  obtain ⟨i, j, hclash, -⟩ := (conflictChecks_conflicts hdistinct).mp hconflicts
  exact not_clash_of_printed hprinted hindexed hevts hwitnessed i j hclash

end

-- Three transactions, of which the first and the last conflict.

def sent (i : ℕ) : Submitted :=
  ⟨i, Hardware.addTransaction (Txn.writing (BitVec.ofNat 32 i) (if i = 1 then 2 else 1))⟩

def testRequests : List Connectal.Label :=
  [.setConfig initConfig, .fetchConfig initConfig, .setConfig initConfig, .addTransaction (sent 0).txn,
    .addTransaction (sent 1).txn, .addTransaction (sent 2).txn, .triggerDriver]

def testRun : List Connectal.Label :=
  [.endCycle fun _ => false] ++ testRequests ++ [.pm .mainFinish, .pm .shadowFinish] ++ deliverRun (sent 0) ++
    deliverRun (sent 1) ++ scheduleRun (sent 0) 0 ++ scheduleRun (sent 1) 1 ++ finishRun (sent 1) 1 ++
    [.endCycle fun p => p = 0] ++ finishRun (sent 0) 0 ++
    [.pm .shadowUpdateNew, .pm .shadowFinish, .pm .shadowUpdateNew, .pm .shadowFinish] ++ deliverRun (sent 2) ++
    refreshRun (sent 2) ++ refreshRun (sent 2) ++ scheduleRun (sent 2) 0

def testReset : Connectal :=
  Connectal.reset false (hashTxn (sent 0).txn) (hashTxn (sent 0).txn) 0 0

theorem testRun_reaches :
    ∃ c, Run (Meeting Connectal.step fun c label => label.covered c) testReset testRun c ∧
      c.lines.length = 13 := by
  have hexec : (exec (guarded Connectal.step fun c label => label.covered c) testReset testRun).any
      (fun c => c.lines.length = 13) = true := by
    decide +kernel
  obtain ⟨c, hc, hlines⟩ := (Option.any_eq_true _ _).mp hexec
  exact ⟨c, run_meeting_of_exec hc, of_decide_eq_true hlines⟩

theorem hw_test_overlapping : hw_test overlapping 0 0 initConfig = .ok testRequests := rfl

theorem analyze_accepts_hw_test_overlapping :
    ∃ c, Run (Meeting Connectal.step fun c label => label.covered c) testReset testRun c ∧
      ∃ file, hwlog2bin Pmlog.emptyLog (fun _ => ⟨0, 0, 0, 0⟩)
          ((c.printed.map HwOutput.display).flatMap lineFeed) 125 = .ok file ∧
        ∀ r : Pmlog, ∃ r' tl, r.pmlog_read file = .ok r' ∧
          timelines overlapping.num_txns r'.events = .ok tl ∧ AcceptedHw overlapping c tl := by
  obtain ⟨c, hrun, hlength⟩ := testRun_reaches
  have hsome : c.lines ≠ [] := by
    rw [← List.length_pos_iff, hlength]
    omega
  exact ⟨c, hrun, analyze_accepts_hw_test hw_test_overlapping (by decide) hrun ⟨[], rfl⟩ (by decide)
    (Transcript.of_printed c.printed) hsome 125 _ _⟩

end Puppetmaster.Runner
