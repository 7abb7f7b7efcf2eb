import Puppetmaster.Runner.Pmlog

namespace Puppetmaster.Runner

open Library Wrapper

-- The event of a call, taken at the time `tsc`.
def pmlogEvt (tsc : BitVec 64) (call : LogCall) : PmlogEvt :=
  ⟨tsc, call.handle.id, kindValue call.kind, call.aux_data⟩

-- One transaction in `sample_period` is logged, and none where it is 0.
def Sampled (sample_period : BitVec 32) (txn_id : TxnId) : Prop :=
  sample_period ≠ 0 ∧ txn_id % sample_period = 0

instance (sample_period : BitVec 32) (txn_id : TxnId) : Decidable (Sampled sample_period txn_id) :=
  inferInstanceAs (Decidable (_ ∧ _))

-- The calls of a log, each with the time at which it was made.
def stamped (clock : ℕ → BitVec 64) (log : List LogCall) : List (BitVec 64 × LogCall) :=
  log.mapIdx fun n call => (clock n, call)

def sampledEvts (sample_period : BitVec 32) (calls : List (BitVec 64 × LogCall)) : List PmlogEvt :=
  (calls.filter fun call => Sampled sample_period call.2.handle.id).map fun call => pmlogEvt call.1 call.2

namespace Pmlog

-- The number of events is an int, and the buffer has max_num_events places.
def pmlog_record (s : Pmlog) (sample_period : BitVec 32) (tsc : BitVec 64) (call : LogCall) :
    Except Abort Pmlog :=
  if sample_period = 0 then .ok s
  else if call.handle.id % sample_period ≠ 0 then .ok s
  else if h : s.num_events + 1 < 2 ^ 31 ∧ s.num_events < s.max_num_events then
    .ok { s with
      num_events := s.num_events + 1
      pmlog_evt_buf := Function.update s.pmlog_evt_buf s.num_events (pmlogEvt tsc call)
      num_events_lt := h.1 }
  else .error .undefined

def recordCalls (s : Pmlog) (sample_period : BitVec 32) (calls : List (BitVec 64 × LogCall)) :
    Except Abort Pmlog :=
  calls.foldlM (fun s call => s.pmlog_record sample_period call.1 call.2) s

variable {s : Pmlog} {sample_period : BitVec 32}

theorem pmlog_record_skip {tsc : BitVec 64} {call : LogCall}
    (h : ¬ Sampled sample_period call.handle.id) : s.pmlog_record sample_period tsc call = .ok s := by
  unfold pmlog_record
  split_ifs with hzero hskip
  · rfl
  · rfl
  all_goals exact absurd ⟨hzero, not_not.mp hskip⟩ h

theorem pmlog_record_event (tsc : BitVec 64) {call : LogCall}
    (h : Sampled sample_period call.handle.id) (hroom : s.num_events < s.max_num_events)
    (hint : s.max_num_events < 2 ^ 31) :
    ∃ s', s.pmlog_record sample_period tsc call = .ok s' ∧
      s'.events = s.events ++ [pmlogEvt tsc call] ∧ s'.max_num_events = s.max_num_events := by
  have hcount : s.num_events + 1 < 2 ^ 31 := by omega
  unfold pmlog_record
  rw [if_neg h.1, if_neg (not_not.mpr h.2), dif_pos ⟨hcount, hroom⟩]
  refine ⟨_, rfl, ?_, rfl⟩
  simp only [events, List.range_succ, List.map_append, List.map_singleton, Function.update_self]
  congr 1
  refine List.map_congr_left fun i hi => Function.update_of_ne ?_ _ _
  exact (List.mem_range.mp hi).ne

-- While there is room for every sampled call, the buffer holds their events in order.
theorem recordCalls_ok (calls : List (BitVec 64 × LogCall)) (hint : s.max_num_events < 2 ^ 31)
    (hroom : s.num_events + (sampledEvts sample_period calls).length ≤ s.max_num_events) :
    ∃ s', s.recordCalls sample_period calls = .ok s' ∧
      s'.events = s.events ++ sampledEvts sample_period calls := by
  induction calls generalizing s with
  | nil => exact ⟨s, rfl, (List.append_nil _).symm⟩
  | cons call calls ih =>
      rw [recordCalls, List.foldlM_cons]
      by_cases hsampled : Sampled sample_period call.2.handle.id
      · have hevts : sampledEvts sample_period (call :: calls) =
            pmlogEvt call.1 call.2 :: sampledEvts sample_period calls := by
          simp [sampledEvts, hsampled]
        rw [hevts, List.length_cons] at hroom
        obtain ⟨next, hnext, hevents, hmax⟩ :=
          pmlog_record_event call.1 hsampled (s := s) (by omega) hint
        have hcount : next.num_events = s.num_events + 1 := by
          have hlength := congrArg List.length hevents
          simpa using hlength
        obtain ⟨s', hs', hevents'⟩ := ih (s := next) (by omega) (by omega)
        refine ⟨s', by rw [hnext, ok_bind]; exact hs', ?_⟩
        rw [hevents', hevents, hevts, List.append_assoc, List.singleton_append]
      · have hevts : sampledEvts sample_period (call :: calls) = sampledEvts sample_period calls := by
          simp [sampledEvts, hsampled]
        rw [pmlog_record_skip hsampled, ok_bind, hevts]
        exact ih hint (hevts ▸ hroom)

end Pmlog

-- The events are those of the calls at some place in the log.
theorem mem_sampledEvts {clock : ℕ → BitVec 64} {log : List LogCall} {sample_period : BitVec 32}
    {e : PmlogEvt} : e ∈ sampledEvts sample_period (stamped clock log) ↔
      ∃ n call, log[n]? = some call ∧ Sampled sample_period call.handle.id ∧
        e = pmlogEvt (clock n) call := by
  simp only [sampledEvts, stamped, List.mem_map, List.mem_filter, decide_eq_true_eq, List.mem_mapIdx]
  constructor
  · rintro ⟨_, ⟨⟨n, hn, rfl⟩, hsampled⟩, rfl⟩
    exact ⟨n, log[n], List.getElem?_eq_getElem hn, hsampled, rfl⟩
  · rintro ⟨n, call, hn, hsampled, rfl⟩
    obtain ⟨hlt, rfl⟩ := List.getElem?_eq_some_iff.mp hn
    exact ⟨_, ⟨⟨n, hlt, rfl⟩, hsampled⟩, rfl⟩

theorem sampledEvts_length_le (clock : ℕ → BitVec 64) (log : List LogCall) (sample_period : BitVec 32) :
    (sampledEvts sample_period (stamped clock log)).length ≤ log.length := by
  rw [sampledEvts, List.length_map, ← List.length_mapIdx (f := fun n call => (clock n, call)) (l := log)]
  exact List.length_filter_le _ _

end Puppetmaster.Runner
