import Puppetmaster.Library.Tally
import Puppetmaster.Runner.Analyze
import Puppetmaster.Runner.Pmlog

namespace Puppetmaster.Runner

open Library Wrapper

namespace Timeline

-- What calloc leaves: nothing has been seen.
def missing : Timeline := ⟨0, 0, 0, 0, 0⟩

instance (t : Timeline) : Decidable t.complete := inferInstanceAs (Decidable (¬ _))

instance (t : Timeline) : Decidable t.ordered := inferInstanceAs (Decidable (_ ∧ _))

def record (t : Timeline) (e : PmlogEvt) : Except Abort Timeline :=
  if e.kind = kindValue .SUBMIT then .ok { t with submit := e.tsc.toNat }
  else if e.kind = kindValue .SCHED_READY then .ok { t with sched := e.tsc.toNat }
  else if e.kind = kindValue .WORK_RECV then .ok { t with work := e.tsc.toNat }
  else if e.kind = kindValue .DONE then .ok { t with done := e.tsc.toNat }
  else if e.kind = kindValue .CLEANUP then .ok { t with cleanup := e.tsc.toNat }
  else .error (.fatal "Unexpected log kind")

end Timeline

-- The time lines that a log makes. It may name transactions for which there is no memory.
def recordEvt {n : ℕ} (tl : Fin n → Timeline) (e : PmlogEvt) : Except Abort (Fin n → Timeline) :=
  if h : e.txn_id.toNat < n then
    ((tl ⟨e.txn_id.toNat, h⟩).record e).map (Function.update tl ⟨e.txn_id.toNat, h⟩)
  else .error .undefined

def timelines (n : ℕ) (evts : List PmlogEvt) : Except Abort (Fin n → Timeline) :=
  evts.foldlM recordEvt fun _ => Timeline.missing

structure Completeness where
  complete_txns : ℕ
  ordered_txns : ℕ
  first_submit : ℕ
  last_done : ℕ

def countComplete (s : Completeness) (t : Timeline) : Completeness :=
  if t.complete then {
    complete_txns := s.complete_txns + 1
    ordered_txns := if t.ordered then s.ordered_txns + 1 else s.ordered_txns
    first_submit := if t.submit < s.first_submit then t.submit else s.first_submit
    last_done := if t.done > s.last_done then t.done else s.last_done }
  else s

def completeness {n : ℕ} (tl : Fin n → Timeline) : Completeness :=
  (List.ofFn tl).foldl countComplete ⟨0, 0, 2 ^ 64 - 1, 0⟩

def num_throughput_windows : ℕ := 30

abbrev Windows := Fin num_throughput_windows → ℕ

-- The quotient of two uint64_t is put into an int, and counts where that is an index.
def windowOf (first_submit window_cycles now : ℕ) : Option (Fin num_throughput_windows) :=
  let window := (BitVec.ofNat 32 ((now + 2 ^ 64 - first_submit) % 2 ^ 64 / window_cycles)).toInt
  if h : 0 ≤ window ∧ window < num_throughput_windows then some ⟨window.toNat, by omega⟩
  else none

structure Throughput where
  windowed_submits : Windows
  windowed_scheds : Windows
  windowed_recvs : Windows
  windowed_dones : Windows
  windowed_cleanups : Windows

def countTxn (first_submit window_cycles : ℕ) (w : Throughput) (t : Timeline) : Throughput where
  windowed_submits := bump w.windowed_submits (windowOf first_submit window_cycles t.submit)
  windowed_scheds := bump w.windowed_scheds (windowOf first_submit window_cycles t.sched)
  windowed_recvs := bump w.windowed_recvs (windowOf first_submit window_cycles t.work)
  windowed_dones := bump w.windowed_dones (windowOf first_submit window_cycles t.done)
  windowed_cleanups := bump w.windowed_cleanups (windowOf first_submit window_cycles t.cleanup)

def Throughput.zero : Throughput :=
  ⟨fun _ => 0, fun _ => 0, fun _ => 0, fun _ => 0, fun _ => 0⟩

section

variable {n : ℕ} (tl : Fin n → Timeline)

def completeTxns : List Timeline := (List.ofFn tl).filter fun t => t.complete

def duration_cycles : ℕ :=
  ((completeness tl).last_done + 2 ^ 64 - (completeness tl).first_submit) % 2 ^ 64

def window_cycles : ℕ := duration_cycles tl / num_throughput_windows

-- A division by zero has no meaning.
def windowedThroughput : Except Abort Throughput :=
  if window_cycles tl = 0 ∧ completeTxns tl ≠ [] then .error .undefined
  else .ok ((completeTxns tl).foldl
    (countTxn (completeness tl).first_submit (window_cycles tl)) Throughput.zero)

def window (now : ℕ) : Option (Fin num_throughput_windows) :=
  windowOf (completeness tl).first_submit (window_cycles tl) now

-- Each submit and each done of a complete transaction is in one window, and no other is counted.
def AccountsForEvery : Prop :=
  ∃ w, windowedThroughput tl = .ok w ∧
    (∀ i, (tl i).complete →
      (∃! k, window tl (tl i).submit = some k) ∧ ∃! k, window tl (tl i).done = some k) ∧
    ∑ k, w.windowed_submits k = (completeness tl).complete_txns ∧
    ∑ k, w.windowed_dones k = (completeness tl).complete_txns

end

-- A time stamp of the log is a uint64_t.
theorem done_lt_of_recordEvt {n : ℕ} {tl tl' : Fin n → Timeline} {e : PmlogEvt}
    (h : recordEvt tl e = .ok tl') (hlt : ∀ i, (tl i).done < 2 ^ 64) (i : Fin n) :
    (tl' i).done < 2 ^ 64 := by
  unfold recordEvt at h
  split at h
  · next hid =>
      cases hrecord : (tl ⟨e.txn_id.toNat, hid⟩).record e with
      | error abort =>
          rw [hrecord] at h
          cases h
      | ok t =>
          rw [hrecord] at h
          cases h
          by_cases hi : i = ⟨e.txn_id.toNat, hid⟩
          · subst hi
            have ht := hlt ⟨e.txn_id.toNat, hid⟩
            rw [Function.update_self]
            unfold Timeline.record at hrecord
            split_ifs at hrecord
            all_goals cases hrecord
            all_goals first | exact ht | exact e.tsc.isLt
          · rw [Function.update_of_ne hi]
            exact hlt i
  · cases h

theorem done_lt_of_timelines {n : ℕ} {evts : List PmlogEvt} {tl : Fin n → Timeline}
    (h : timelines n evts = .ok tl) (i : Fin n) : (tl i).done < 2 ^ 64 := by
  unfold timelines at h
  have hstart : ∀ i : Fin n, ((fun _ => Timeline.missing) i).done < 2 ^ 64 := fun _ =>
    Nat.two_pow_pos 64
  generalize (fun _ : Fin n => Timeline.missing) = start at h hstart
  induction evts generalizing start with
  | nil =>
      cases h
      exact hstart i
  | cons e evts ih =>
      rw [List.foldlM_cons] at h
      obtain ⟨next, hnext, h⟩ := bind_eq_ok.mp h
      exact ih next h (done_lt_of_recordEvt hnext hstart)

-- What the first pass knows of the complete transactions that it has seen.
structure Seen (ts : List Timeline) (s : Completeness) : Prop where
  complete_txns_eq : s.complete_txns = ts.length
  first_submit_le : ∀ t ∈ ts, s.first_submit ≤ t.submit
  done_le : ∀ t ∈ ts, t.done ≤ s.last_done
  last_done_eq : s.last_done = 0 ∨ ∃ t ∈ ts, t.done = s.last_done

theorem Seen.snoc {ts : List Timeline} {s : Completeness} (h : Seen ts s) {t : Timeline}
    (ht : t.complete) : Seen (ts ++ [t]) (countComplete s t) := by
  rw [countComplete, if_pos ht]
  constructor
  · simp only [h.complete_txns_eq, List.length_append, List.length_singleton]
  · intro u hu
    show (if t.submit < s.first_submit then t.submit else s.first_submit) ≤ u.submit
    rcases List.mem_append.mp hu with hu | hu
    · have hle := h.first_submit_le u hu
      split_ifs <;> omega
    · obtain rfl := List.mem_singleton.mp hu
      split_ifs <;> omega
  · intro u hu
    show u.done ≤ if t.done > s.last_done then t.done else s.last_done
    rcases List.mem_append.mp hu with hu | hu
    · have hle := h.done_le u hu
      split_ifs <;> omega
    · obtain rfl := List.mem_singleton.mp hu
      split_ifs <;> omega
  · by_cases hlater : t.done > s.last_done
    · exact Or.inr ⟨t, by simp, (if_pos hlater).symm⟩
    · rcases h.last_done_eq with hzero | ⟨u, hu, hdone⟩
      · exact Or.inl ((if_neg hlater).trans hzero)
      · exact Or.inr ⟨u, List.mem_append_left _ hu, hdone.trans (if_neg hlater).symm⟩

theorem seen_completeness {n : ℕ} (tl : Fin n → Timeline) :
    Seen (completeTxns tl) (completeness tl) := by
  have hfilter : completeness tl = (completeTxns tl).foldl countComplete ⟨0, 0, 2 ^ 64 - 1, 0⟩ := by
    rw [completeTxns, List.foldl_filter]
    refine congrArg (fun f => (List.ofFn tl).foldl f _) (funext fun s => funext fun t => ?_)
    by_cases ht : t.complete
    · simp [ht]
    · simp [countComplete, ht]
  have hcomplete : ∀ t ∈ completeTxns tl, t.complete := fun t ht =>
    of_decide_eq_true (List.mem_filter.mp ht).2
  rw [hfilter]
  clear hfilter
  generalize completeTxns tl = ts at hcomplete ⊢
  induction ts using List.reverseRecOn with
  | nil => exact ⟨rfl, (fun _ h => nomatch h), (fun _ h => nomatch h), Or.inl rfl⟩
  | append_singleton ts t ih =>
      rw [List.foldl_append]
      exact (ih fun u hu => hcomplete u (List.mem_append_left _ hu)).snoc (hcomplete t (by simp))

-- The index of a time behind the first submit, where it is small enough for an int.
theorem windowOf_eq {first_submit window_cycles now : ℕ} (hle : first_submit ≤ now)
    (hlt : now < 2 ^ 64) (hindex : (now - first_submit) / window_cycles < 2 ^ 31) :
    (windowOf first_submit window_cycles now).isSome ↔
      (now - first_submit) / window_cycles < num_throughput_windows := by
  have hdiff : (now + 2 ^ 64 - first_submit) % 2 ^ 64 = now - first_submit := by omega
  have hint : (BitVec.ofNat 32 ((now - first_submit) / window_cycles)).toInt =
      ((now - first_submit) / window_cycles : ℕ) := by
    rw [BitVec.toInt_eq_toNat_of_lt]
    · rw [BitVec.toNat_ofNat, Nat.mod_eq_of_lt (hindex.trans (by decide))]
    · rw [BitVec.toNat_ofNat, Nat.mod_eq_of_lt (hindex.trans (by decide))]
      omega
  unfold windowOf
  simp only [hdiff, hint]
  split_ifs with h
  · exact iff_of_true rfl (by exact_mod_cast h.2)
  · refine iff_of_false (by simp) fun hlt => h ⟨Int.natCast_nonneg _, by exact_mod_cast hlt⟩

section

variable {n : ℕ} {tl : Fin n → Timeline}

theorem mem_completeTxns {t : Timeline} : t ∈ completeTxns tl ↔ ∃ i, (tl i).complete ∧ tl i = t := by
  simp only [completeTxns, List.mem_filter, List.mem_ofFn, decide_eq_true_eq]
  constructor
  · rintro ⟨⟨i, rfl⟩, ht⟩
    exact ⟨i, ht, rfl⟩
  · rintro ⟨i, ht, rfl⟩
    exact ⟨⟨i, rfl⟩, ht⟩

theorem complete_txns_eq : (completeness tl).complete_txns = (completeTxns tl).length :=
  (seen_completeness tl).complete_txns_eq

-- The counters of a stage are a tally of the times of that stage.
theorem windowedThroughput_eq {w : Throughput} (h : windowedThroughput tl = .ok w) : w = {
    windowed_submits := tally (fun t => window tl t.submit) (completeTxns tl)
    windowed_scheds := tally (fun t => window tl t.sched) (completeTxns tl)
    windowed_recvs := tally (fun t => window tl t.work) (completeTxns tl)
    windowed_dones := tally (fun t => window tl t.done) (completeTxns tl)
    windowed_cleanups := tally (fun t => window tl t.cleanup) (completeTxns tl) } := by
  unfold windowedThroughput at h
  split_ifs at h
  cases h
  generalize completeTxns tl = ts
  induction ts using List.reverseRecOn with
  | nil => rfl
  | append_singleton ts t ih => simp only [List.foldl_append, List.foldl_cons, List.foldl_nil, ih,
      countTxn, tally_snoc, window]

theorem windowed_dones_eq {w : Throughput} (h : windowedThroughput tl = .ok w) :
    w.windowed_dones = tally (fun t => window tl t.done) (completeTxns tl) := by
  rw [windowedThroughput_eq h]

theorem windowed_submits_eq {w : Throughput} (h : windowedThroughput tl = .ok w) :
    w.windowed_submits = tally (fun t => window tl t.submit) (completeTxns tl) := by
  rw [windowedThroughput_eq h]

-- The log of a run that is long enough for its windows.
structure Windowed (tl : Fin n → Timeline) : Prop where
  some_complete : ∃ i, (tl i).complete
  all_ordered : ∀ i, (tl i).complete → (tl i).ordered
  long : num_throughput_windows ≤ (completeness tl).last_done - (completeness tl).first_submit

theorem exists_last_done (h : Windowed tl) :
    ∃ i, (tl i).complete ∧ (tl i).done = (completeness tl).last_done := by
  rcases (seen_completeness tl).last_done_eq with hzero | ⟨t, ht, hdone⟩
  · have hlong := h.long
    rw [hzero, Nat.zero_sub] at hlong
    exact absurd hlong (by decide)
  · obtain ⟨i, hcomplete, rfl⟩ := mem_completeTxns.mp ht
    exact ⟨i, hcomplete, hdone⟩

-- Where the last window ends.
def windowsEnd (tl : Fin n → Timeline) : ℕ :=
  (completeness tl).first_submit + num_throughput_windows * window_cycles tl

-- Between the first submit and the last done a time has a window iff it is not in what the
-- division leaves over at the end.
theorem window_isSome_iff (h : Windowed tl) (hlt : (completeness tl).last_done < 2 ^ 64) {now : ℕ}
    (hfirst : (completeness tl).first_submit ≤ now) (hlast : now ≤ (completeness tl).last_done) :
    (window tl now).isSome ↔ now < windowsEnd tl := by
  have hlong : 30 ≤ (completeness tl).last_done - (completeness tl).first_submit := h.long
  have hcycles : window_cycles tl =
      ((completeness tl).last_done - (completeness tl).first_submit) / 30 := by
    refine congrArg (· / 30) ?_
    unfold duration_cycles
    omega
  have hpos : 0 < window_cycles tl := by omega
  have hindex : (now - (completeness tl).first_submit) / window_cycles tl < 60 := by
    rw [Nat.div_lt_iff_lt_mul hpos]
    omega
  unfold window windowsEnd
  rw [windowOf_eq hfirst (hlast.trans_lt hlt) (hindex.trans (by decide)), Nat.div_lt_iff_lt_mul hpos]
  omega

-- What is left over is at least the last cycle.
theorem windowsEnd_le_last_done (h : Windowed tl) (hlt : (completeness tl).last_done < 2 ^ 64) :
    windowsEnd tl ≤ (completeness tl).last_done := by
  have hlong : 30 ≤ (completeness tl).last_done - (completeness tl).first_submit := h.long
  have hcut := Nat.mul_div_le ((completeness tl).last_done - (completeness tl).first_submit) 30
  have hduration : duration_cycles tl = (completeness tl).last_done - (completeness tl).first_submit := by
    unfold duration_cycles
    omega
  unfold windowsEnd window_cycles num_throughput_windows
  rw [hduration]
  omega

theorem times_le (h : Windowed tl) {t : Timeline} (ht : t ∈ completeTxns tl) :
    (completeness tl).first_submit ≤ t.submit ∧ t.submit ≤ t.done ∧ t.done ≤ (completeness tl).last_done := by
  have hseen := seen_completeness tl
  obtain ⟨i, hcomplete, rfl⟩ := mem_completeTxns.mp ht
  obtain ⟨-, hsubmit, hsched, hwork, -⟩ := h.all_ordered i hcomplete
  exact ⟨hseen.first_submit_le _ ht, hsubmit.trans (hsched.trans hwork), hseen.done_le _ ht⟩

-- The windows of a stage count its events before the end of the last window, each of them once.
theorem sum_windowed_dones (h : Windowed tl) (hlt : (completeness tl).last_done < 2 ^ 64)
    {w : Throughput} (hw : windowedThroughput tl = .ok w) :
    ∑ k, w.windowed_dones k = (completeTxns tl).countP fun t => t.done < windowsEnd tl := by
  rw [windowed_dones_eq hw, sum_tally]
  refine List.countP_congr fun t ht => ?_
  obtain ⟨hfirst, hdone, hlast⟩ := times_le h ht
  rw [window_isSome_iff h hlt (hfirst.trans hdone) hlast, decide_eq_true_eq]

theorem sum_windowed_submits (h : Windowed tl) (hlt : (completeness tl).last_done < 2 ^ 64)
    {w : Throughput} (hw : windowedThroughput tl = .ok w) :
    ∑ k, w.windowed_submits k = (completeTxns tl).countP fun t => t.submit < windowsEnd tl := by
  rw [windowed_submits_eq hw, sum_tally]
  refine List.countP_congr fun t ht => ?_
  obtain ⟨hfirst, hdone, hlast⟩ := times_le h ht
  rw [window_isSome_iff h hlt hfirst (hdone.trans hlast), decide_eq_true_eq]

-- The last of all events is in no window.
theorem sum_windowed_dones_lt (h : Windowed tl) (hlt : (completeness tl).last_done < 2 ^ 64)
    {w : Throughput} (hw : windowedThroughput tl = .ok w) :
    ∑ k, w.windowed_dones k < (completeness tl).complete_txns := by
  rw [sum_windowed_dones h hlt hw, complete_txns_eq]
  refine lt_of_le_of_ne List.countP_le_length fun heq => ?_
  obtain ⟨i, hcomplete, hdone⟩ := exists_last_done h
  have hbefore := List.countP_eq_length.mp heq (tl i) (mem_completeTxns.mpr ⟨i, hcomplete, rfl⟩)
  rw [hdone, decide_eq_true_eq] at hbefore
  exact Nat.not_lt.mpr (windowsEnd_le_last_done h hlt) hbefore

-- In no log are all events counted.
theorem not_accountsForEvery {evts : List PmlogEvt} (hlog : timelines n evts = .ok tl)
    (h : Windowed tl) : ¬ AccountsForEvery tl := by
  rintro ⟨w, hw, -, -, hdones⟩
  obtain ⟨i, -, hdone⟩ := exists_last_done h
  have hlt : (completeness tl).last_done < 2 ^ 64 := hdone ▸ done_lt_of_timelines hlog i
  exact absurd hdones (sum_windowed_dones_lt h hlt hw).ne

end

-- One transaction that takes 30 cycles from its submit to its done.
def oneTxnLog : List PmlogEvt :=
  [⟨100, 0, kindValue .SUBMIT, 0⟩, ⟨110, 0, kindValue .SCHED_READY, 0⟩,
    ⟨120, 0, kindValue .WORK_RECV, 0⟩, ⟨130, 0, kindValue .DONE, 0⟩, ⟨140, 0, kindValue .CLEANUP, 0⟩]

def oneTxn (_ : Fin 1) : Timeline := ⟨100, 110, 120, 130, 140⟩

theorem timelines_oneTxnLog : timelines 1 oneTxnLog = .ok oneTxn := by
  refine congrArg Except.ok (funext fun i => ?_)
  obtain rfl := Subsingleton.elim 0 i
  rfl

theorem not_accountsForEvery_oneTxn : timelines 1 oneTxnLog = .ok oneTxn ∧ Windowed oneTxn ∧
    ¬ AccountsForEvery oneTxn :=
  have hlog := timelines_oneTxnLog
  have h : Windowed oneTxn := ⟨by decide, by decide, by decide⟩
  ⟨hlog, h, not_accountsForEvery hlog h⟩

-- Its done is at the end of window 29, where window 30 would begin.
theorem oneTxn_done_not_counted : timelines 1 oneTxnLog = .ok oneTxn ∧ Windowed oneTxn ∧
    ¬ AccountsForEvery oneTxn := by
  refine ⟨timelines_oneTxnLog, ⟨by decide, by decide, by decide⟩, ?_⟩
  rintro ⟨w, -, hwindows, -⟩
  obtain ⟨k, hk, -⟩ := (hwindows 0 (by decide)).2
  revert hk
  decide +revert

end Puppetmaster.Runner
