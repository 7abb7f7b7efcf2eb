import Puppetmaster.Runner.Generate.Rules
import Mathlib.Algebra.Order.Field.Rat

namespace Puppetmaster.Runner.GenerateArgs

open Library Library.Transition Wrapper

variable {α : Type} [Double α]

-- Every run of the workers comes to an end, with all transactions as they were requested.
structure Fills (a : GenerateArgs α) : Prop where
  stop_le : ∀ t, a.stop t ≤ a.num_txns
  partition : ∀ i < a.num_txns, ∃! t, a.start t ≤ i ∧ i < a.stop t
  not_aborted : ∀ memory labels s, Run (Of a.generate_workload) (a.init memory) labels s →
    s.aborted = none
  bounded : ∃ bound, ∀ memory labels s,
    Run (Of a.generate_workload) (a.init memory) labels s → labels.length ≤ bound
  filled : ∀ memory labels s, Run (Of a.generate_workload) (a.init memory) labels s →
    Parallel.Finished a.worker_fn s → ∀ i : Fin a.num_txns, a.Holds i a.Requested (record (s.memory i))

-- No number that is drawn lets the search for an object overflow.
def SearchFits (a : GenerateArgs α) : Prop := Zipf.Searchable a.cdf (uniform (Fin.last RAND_MAX))

-- The loops make as many writes as reads, and the search for an object must not overflow.
def Fillable (a : GenerateArgs α) : Prop :=
  a.num_txns = 0 ∨
    if a.mixed then 0 ≤ a.num_objs_per_txn ∧ (a.num_objs_per_txn = 0 ∨ a.SearchFits)
    else 0 ≤ a.num_reads ∧ a.num_reads = a.num_writes ∧ a.SearchFits

section

variable {a : GenerateArgs α} {t : Fin a.num_threads} {d : Draw} {txns : a.Memory}

theorem addObj_total (hfits : a.SearchFits) {is_write : Bool} {txn : Txn}
    (hroom : ((record txn).objs is_write).length < MAX_TXN_OBJS) (full : Abort) :
    ∃ txn', a.addObj d is_write full txn = .ok txn' := by
  obtain ⟨x, hsample⟩ := Zipf.searchable_iff.mp (hfits.mono (uniform_le d.obj))
  obtain ⟨txn', hpush⟩ := pushOr_total hroom (BitVec.ofNat 32 x) full
  refine ⟨txn', ?_⟩
  rw [addObj, hsample, ok_bind, hpush]

theorem modifyTxn_total {i : ℕ} {f : Txn → Except Abort Txn} (hi : i < a.num_txns)
    (hf : ∃ txn, f (txns ⟨i, hi⟩) = .ok txn) : ∃ txns', a.modifyTxn i f txns = .ok txns' := by
  obtain ⟨txn, hf⟩ := hf
  exact ⟨Function.update txns ⟨i, hi⟩ txn, by simp [modifyTxn, hi, hf, Except.map]⟩

theorem objLoop_not_aborted {i j : ℕ} {bound : ℤ} {add : Txn → Except Abort Txn}
    {again after : WorkerPC} (h : j < bound → ∃ txns', a.modifyTxn i add txns = .ok txns')
    (e : Abort) : a.objLoop i j bound add again after txns ≠ some (.error e) := by
  unfold objLoop
  split_ifs with hlt
  · obtain ⟨txns', htxns'⟩ := h hlt
    simp [htxns', Except.map]
  · simp

-- A turn of a loop finds an object and a place for it.
theorem InLoop.modifyTxn_total {start stop i : ℕ} {counts : ℕ → ℕ → Prop} {is_write : Bool}
    (h : a.InLoop start stop txns i counts) (hfits : a.SearchFits)
    (hroom : ∀ reads writes, counts reads writes → reads < MAX_TXN_OBJS ∧ writes < MAX_TXN_OBJS)
    (full : Abort) : ∃ txns', a.modifyTxn i (a.addObj d is_write full) txns = .ok txns' := by
  obtain ⟨hi, hholds⟩ := h.has
  refine GenerateArgs.modifyTxn_total hi (addObj_total hfits ?_ full)
  obtain ⟨hreads, hwrites⟩ := hroom _ _ hholds.counts_eq
  cases is_write with
  | true => exact hwrites
  | false => exact hreads

-- In a request that can be filled no worker aborts.
theorem worker_not_aborted (ha : a.Fillable) {pc : WorkerPC} {e : Abort}
    (h : a.Knows (a.start t) (a.stop t) txns pc) :
    a.worker_fn t d txns pc ≠ some (.error e) := by
  have hmax : a.num_objs_per_txn ≤ 16 := a.num_objs_le
  have hsome {i : ℕ} {counts : ℕ → ℕ → Prop}
      (h : a.InLoop (a.start t) (a.stop t) txns i counts) : a.num_txns ≠ 0 := by
    obtain ⟨hi, -⟩ := h.has
    exact Nat.ne_zero_of_lt hi
  cases pc with
  | txn i =>
      by_cases hi : i < a.stop t
      · obtain ⟨txns', htxns'⟩ : ∃ txns', a.modifyTxn i
            (fun txn => .ok (txn.restart (BitVec.ofNat 32 i) 0)) txns = .ok txns' :=
          GenerateArgs.modifyTxn_total (hi.trans_le (stop_le t)) ⟨_, rfl⟩
        simp only [worker_fn, if_pos hi, htxns', Except.map]
        simp
      · simp [worker_fn, hi]
  | objs i j =>
      obtain ⟨hmixed, hj, hloop⟩ := h
      refine objLoop_not_aborted (fun hlt => ?_) e
      have hargs := ha.resolve_left (hsome hloop)
      rw [if_pos hmixed] at hargs
      have hfits : a.SearchFits := hargs.2.resolve_left (by omega)
      refine hloop.modifyTxn_total hfits (fun reads writes hsum => ?_) _
      show reads < 16 ∧ writes < 16
      omega
  | reads i j | writes i j =>
      obtain ⟨hsplit, hj, hloop⟩ := h
      refine objLoop_not_aborted (fun hlt => ?_) e
      have hargs := ha.resolve_left (hsome hloop)
      rw [if_neg hsplit] at hargs
      have hsum := a.split_sum hsplit
      refine hloop.modifyTxn_total hargs.2.2 (fun reads writes hcounts => ?_) _
      show reads < 16 ∧ writes < 16
      omega
  | finished => simp [worker_fn]

end

section

variable {a : GenerateArgs α} {memory : a.Memory} {labels : List (Fin a.num_threads × Draw)}
  {s : Parallel.State (Fin a.num_threads) a.Memory WorkerPC Abort}

theorem eq_finished {t : Fin a.num_threads} {d : Draw} {txns : a.Memory} {pc : WorkerPC}
    (h : a.worker_fn t d txns pc = none) : pc = .finished := by
  cases pc with
  | txn i =>
      rw [worker_fn] at h
      split at h <;> cases h
  | objs i j | reads i j | writes i j =>
      rw [worker_fn, objLoop] at h
      split at h <;> cases h
  | finished => rfl

-- The draws that lead a search as far up as one can.
def highest : Draw := ⟨Fin.last RAND_MAX, Fin.last RAND_MAX⟩

-- Whatever was requested, the workers leave what their loops make of it.
theorem made_of_finished (hrun : Run (Of a.generate_workload) (a.init memory) labels s)
    (hdone : Parallel.Finished a.worker_fn s) (i : Fin a.num_txns) :
    a.Holds i a.Made (record (s.memory i)) := by
  obtain ⟨t, hmem, -⟩ := exists_unique_thread i.isLt
  have hknows := knows_stable.run (fun t => knows_init memory t) hrun t
  have hfinished : s.workers t = .finished := eq_finished (hdone t highest)
  rw [hfinished] at hknows
  obtain ⟨_, hholds⟩ := hknows i hmem.1 hmem.2
  exact hholds

theorem requested_of_made (ha : a.Fillable) (hsome : a.num_txns ≠ 0) (reads writes : ℕ) :
    a.Made reads writes → a.Requested reads writes := by
  have hargs := ha.resolve_left hsome
  unfold Made Requested
  by_cases hmixed : a.mixed
  · simp only [if_pos hmixed] at hargs ⊢
    omega
  · simp only [if_neg hmixed] at hargs ⊢
    omega

theorem fills_of_fillable (ha : a.Fillable) : a.Fills where
  stop_le := stop_le
  partition _ hi := exists_unique_thread hi
  not_aborted memory labels s hrun :=
    knows_stable.not_aborted (worker_not_aborted ha) (fun t => knows_init memory t) rfl hrun
  bounded := by
    refine ⟨(∑ t, a.turnsLeft t (.txn (a.start t))) + 1, fun memory labels s hrun => ?_⟩
    exact Parallel.length_le_remaining variant_turnsLeft hrun
  filled memory labels s hrun hdone i := by
    have hholds := made_of_finished hrun hdone i
    have hsome : a.num_txns ≠ 0 := Nat.ne_zero_of_lt i.isLt
    exact ⟨hholds.id_eq, requested_of_made ha hsome _ _ hholds.counts_eq, hholds.below⟩

theorem objLoop_overflow (hfits : ¬ a.SearchFits) {i : ℕ} (hi : i < a.num_txns)
    {bound : ℤ} (hbound : 0 < bound) {is_write : Bool} {full : Abort} {again after : WorkerPC}
    {txns : a.Memory} :
    a.objLoop i 0 bound (a.addObj highest is_write full) again after txns =
      some (.error .undefined) := by
  have hsample : Zipf.sample_zipf a.cdf (uniform highest.obj) = .error .undefined :=
    Zipf.sample_zipf_eq_error hfits
  have hlt : ((0 : ℕ) : ℤ) < bound := by simpa using hbound
  simp only [objLoop, if_pos hlt, modifyTxn, dif_pos hi, addObj, hsample]
  rfl

-- Where a search can overflow, that for the first object can.
theorem aborts_of_overflow (hsome : a.num_txns ≠ 0) (hfits : ¬ a.SearchFits)
    (hobjs : if a.mixed then 0 < a.num_objs_per_txn else 0 < a.num_reads) (memory : a.Memory) :
    ∃ labels s, Run (Of a.generate_workload) (a.init memory) labels s ∧ s.aborted ≠ none := by
  obtain ⟨t, hmem, -⟩ := exists_unique_thread (Nat.pos_of_ne_zero hsome)
  have hi : a.start t < a.num_txns := hmem.1.trans_lt (Nat.pos_of_ne_zero hsome)
  have hstop : a.start t < a.stop t := hmem.1.trans_lt hmem.2
  obtain ⟨txns, htxns⟩ : ∃ txns, a.modifyTxn (a.start t)
      (fun txn => .ok (txn.restart (BitVec.ofNat 32 (a.start t)) 0)) memory = .ok txns :=
    modifyTxn_total hi ⟨_, rfl⟩
  obtain ⟨next, hfirst, hsecond⟩ : ∃ next,
      a.worker_fn t highest memory (.txn (a.start t)) = some (.ok (txns, next)) ∧
        a.worker_fn t highest txns next = some (.error .undefined) := by
    by_cases hmixed : a.mixed
    · rw [if_pos hmixed] at hobjs
      refine ⟨.objs (a.start t) 0, ?_, objLoop_overflow hfits hi hobjs⟩
      simp only [worker_fn, if_pos hstop, htxns, Except.map]
      rw [if_pos hmixed]
    · rw [if_neg hmixed] at hobjs
      refine ⟨.reads (a.start t) 0, ?_, objLoop_overflow hfits hi hobjs⟩
      simp only [worker_fn, if_pos hstop, htxns, Except.map]
      rw [if_neg hmixed]
  have hstart : Of a.generate_workload (a.init memory) (t, highest)
      ⟨txns, Function.update (a.init memory).workers t next, none⟩ :=
    Parallel.step_of_work rfl hfirst
  refine ⟨_, _, Run.cons hstart (Run.single (Parallel.step_of_abort (t := t) (d := highest) rfl ?_)),
    Option.some_ne_none Abort.undefined⟩
  simp only [Function.update_self]
  exact hsecond

theorem fillable_of_fills (h : a.Fills) : a.Fillable := by
  by_cases hzero : a.num_txns = 0
  · exact Or.inl hzero
  · let memory : a.Memory := fun _ => Txn.writing 0 0
    obtain ⟨labels, s, hrun, hs⟩ :=
      Parallel.exists_run_finished variant_turnsLeft (a.init memory)
    have hdone := hs (h.not_aborted _ _ _ hrun)
    have hmade := (made_of_finished hrun hdone ⟨0, Nat.pos_of_ne_zero hzero⟩).counts_eq
    have hrequested := (h.filled _ _ _ hrun hdone ⟨0, Nat.pos_of_ne_zero hzero⟩).counts_eq
    have hfits (hobjs : if a.mixed then 0 < a.num_objs_per_txn else 0 < a.num_reads) :
        a.SearchFits := by
      by_contra hfits
      obtain ⟨labels, s, hrun, hs⟩ := aborts_of_overflow hzero hfits hobjs memory
      exact hs (h.not_aborted _ _ _ hrun)
    refine Or.inr ?_
    unfold Made at hmade
    unfold Requested at hrequested
    by_cases hmixed : a.mixed
    · simp only [if_pos hmixed] at hmade hrequested hfits ⊢
      refine ⟨by omega, ?_⟩
      by_cases hnone : a.num_objs_per_txn = 0
      · exact Or.inl hnone
      · exact Or.inr (hfits (by omega))
    · simp only [if_neg hmixed] at hmade hrequested hfits ⊢
      refine ⟨by omega, by omega, hfits ?_⟩
      unfold mixed at hmixed
      omega

theorem fills_iff : a.Fills ↔ a.Fillable := ⟨fillable_of_fills, fills_of_fillable⟩

end

-- Fractions, with whole powers of them, for an array of one weight.
instance : Double ℚ where
  ofInt n := n
  pow x alpha := x ^ alpha.num
  div_le k hk := div_le_div_of_nonneg_right (by exact_mod_cast hk) (by simp)

def oneReadTwoWrites : GenerateArgs ℚ where
  num_txns := 1
  num_objs_per_txn := 3
  addr_space := 1
  zipf_alpha := 0
  write_prob := 0
  num_reads := 1
  num_writes := 2
  num_threads := 1
  addr_space_pos := by decide
  num_threads_pos := by decide
  num_objs_le := by decide
  split_sum := by decide
  index_lt := by decide

-- The second write is missing.
theorem oneReadTwoWrites_not_fills : ¬ oneReadTwoWrites.Fills := fun h => by
  have hfillable := (fillable_of_fills h).resolve_left Nat.one_ne_zero
  have hmixed : ¬ oneReadTwoWrites.mixed := by decide
  rw [if_neg hmixed] at hfillable
  exact absurd hfillable.2.1 (by decide)

end Puppetmaster.Runner.GenerateArgs
