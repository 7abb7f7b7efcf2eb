import Puppetmaster.Library.Search
import Puppetmaster.Runner.Generate

namespace Puppetmaster.Runner

open Library Library.Transition Wrapper

namespace Zipf

variable {α : Type} [LinearOrder α] {cdf : List α} {r : α}

-- How a random number compares with the entries of the array.
def le (cdf : List α) (r : α) (i : ℕ) : Bool := cdf[i]?.any fun x => decide (r ≤ x)

theorem le_eq {i : ℕ} (hi : i < cdf.length) : le cdf r i = decide (r ≤ cdf[i]) := by
  rw [le, List.getElem?_eq_getElem hi, Option.any_some]

theorem le_of_le {r' : α} (hr : r ≤ r') {i : ℕ} (h : le cdf r' i = true) : le cdf r i = true := by
  obtain ⟨x, hx, hle⟩ := (Option.any_eq_true _ _).mp h
  exact (Option.any_eq_true _ _).mpr ⟨x, hx, decide_eq_true (hr.trans (of_decide_eq_true hle))⟩

-- Within the array the loop is the search for the first entry that is not below the number.
theorem sampleLoop_eq {lo hi : ℕ} (hhi : hi ≤ cdf.length) :
    sampleLoop cdf r lo hi = (search (2 ^ 31) (le cdf r) lo hi).elim (.error .undefined) .ok := by
  fun_induction search (2 ^ 31) (le cdf r) lo hi with
  | case1 lo hi hlt hsum hmid ih =>
      have hlength : (lo + hi) / 2 < cdf.length := by omega
      rw [le_eq hlength, decide_eq_true_eq] at hmid
      rw [sampleLoop, dif_pos hlt, if_pos hsum, List.getElem?_eq_getElem hlength]
      dsimp only
      rw [if_pos hmid, ih (by omega)]
  | case2 lo hi hlt hsum hmid ih =>
      have hlength : (lo + hi) / 2 < cdf.length := by omega
      rw [le_eq hlength, decide_eq_true_eq] at hmid
      rw [sampleLoop, dif_pos hlt, if_pos hsum, List.getElem?_eq_getElem hlength]
      dsimp only
      rw [if_neg hmid, ih hhi]
  | case3 lo hi hlt hsum =>
      rw [sampleLoop, dif_pos hlt, if_neg hsum]
      rfl
  | case4 lo hi hge =>
      rw [sampleLoop, dif_neg hge]
      rfl

theorem sample_zipf_eq_ok {x : ℕ} :
    sample_zipf cdf r = .ok x ↔ search (2 ^ 31) (le cdf r) 0 (cdf.length - 1) = some x := by
  rw [sample_zipf, sampleLoop_eq (Nat.sub_le _ _)]
  cases search (2 ^ 31) (le cdf r) 0 (cdf.length - 1) with
  | none => simp
  | some y => simp

theorem sample_zipf_lt {x : ℕ} (hpos : 1 ≤ cdf.length) (h : sample_zipf cdf r = .ok x) :
    x < cdf.length := by
  have hle := search_le (sample_zipf_eq_ok.mp h) (Nat.zero_le _)
  omega

-- The array is small, or one of the entries that a climbing search looks at is not below the number.
def Searchable (cdf : List α) (r : α) : Prop :=
  cdf.length ≤ 2 ^ 30 + 1 ∨ ∃ i ∈ climb (2 ^ 31) 0 (cdf.length - 1), le cdf r i = true

theorem Searchable.mono {r' : α} (h : Searchable cdf r') (hr : r ≤ r') : Searchable cdf r :=
  h.imp_right fun ⟨i, hi, hle⟩ => ⟨i, hi, le_of_le hr hle⟩

theorem searchable_iff : Searchable cdf r ↔ ∃ x, sample_zipf cdf r = .ok x := by
  simp only [sample_zipf_eq_ok]
  by_cases hsmall : cdf.length ≤ 2 ^ 30 + 1
  · exact iff_of_true (Or.inl hsmall) (search_total (by omega))
  · rw [search_total_iff (by omega) (by omega), Searchable, or_iff_right hsmall]

theorem sample_zipf_eq_error (h : ¬ Searchable cdf r) : sample_zipf cdf r = .error .undefined := by
  have hnone : search (2 ^ 31) (le cdf r) 0 (cdf.length - 1) = none := by
    refine Option.eq_none_iff_forall_ne_some.mpr fun x hx => ?_
    exact h (searchable_iff.mpr ⟨x, sample_zipf_eq_ok.mpr hx⟩)
  rw [sample_zipf, sampleLoop_eq (Nat.sub_le _ _), hnone]
  rfl

end Zipf

theorem length_make_zipf_weights {α : Type} [Double α] (n : ℕ) (alpha : α) :
    (make_zipf_weights n alpha).length = n := by
  unfold make_zipf_weights
  dsimp only
  split
  · next h => simpa using (congrArg List.length h).symm
  · next first rest h =>
      rw [List.length_scanl]
      simpa using (congrArg List.length h).symm

theorem uniform_le {α : Type} [Double α] (k : Fin (RAND_MAX + 1)) :
    (uniform k : α) ≤ uniform (Fin.last RAND_MAX) :=
  Double.div_le _ (by exact_mod_cast k.is_le)

namespace GenerateArgs

variable {α : Type} [Double α] {a : GenerateArgs α}

theorem length_cdf (a : GenerateArgs α) : a.cdf.length = a.addr_space :=
  length_make_zipf_weights a.addr_space a.zipf_alpha

theorem stop_le (t : Fin a.num_threads) : a.stop t ≤ a.num_txns :=
  chunkStart_le a.num_threads_pos t.isLt

theorem start_le_stop (t : Fin a.num_threads) : a.start t ≤ a.stop t :=
  chunkStart_mono (Nat.le_succ t.val)

-- The ranges of the threads are a partition of the transactions.
theorem exists_unique_thread {i : ℕ} (hi : i < a.num_txns) :
    ∃! t : Fin a.num_threads, a.start t ≤ i ∧ i < a.stop t := by
  obtain ⟨t, ht, hmem⟩ := exists_inChunk (n := a.num_txns) a.num_threads_pos hi
  exact ⟨⟨t, ht⟩, hmem, fun u hu => Fin.ext (InChunk.unique hu hmem)⟩

theorem outside_of_ne {t u : Fin a.num_threads} (hne : u ≠ t) {i : ℕ} (hstart : a.start u ≤ i)
    (hstop : i < a.stop u) : ¬ (a.start t ≤ i ∧ i < a.stop t) := fun h =>
  hne (Fin.ext (InChunk.unique ⟨hstart, hstop⟩ h))

-- Transaction `i` as the request describes it, up to the numbers of its reads and writes.
structure Holds (a : GenerateArgs α) (i : ℕ) (counts : ℕ → ℕ → Prop) (r : Record) : Prop where
  id_eq : r.id = BitVec.ofNat 32 i
  counts_eq : counts r.reads.length r.writes.length
  below : ∀ obj, obj ∈ r.reads ∨ obj ∈ r.writes → obj.toNat < a.addr_space

def Requested (a : GenerateArgs α) (reads writes : ℕ) : Prop :=
  if a.mixed then ((reads + writes : ℕ) : ℤ) = a.num_objs_per_txn
  else (reads : ℤ) = a.num_reads ∧ (writes : ℤ) = a.num_writes

-- What the loops of worker_fn make of the request.
def Made (a : GenerateArgs α) (reads writes : ℕ) : Prop :=
  if a.mixed then reads + writes = a.num_objs_per_txn.toNat
  else reads = a.num_reads.toNat ∧ writes = a.num_reads.toNat

def Has (a : GenerateArgs α) (txns : a.Memory) (i : ℕ) (counts : ℕ → ℕ → Prop) : Prop :=
  ∃ h : i < a.num_txns, a.Holds i counts (record (txns ⟨i, h⟩))

-- A worker in a loop over the objects of transaction `i`, the transactions before it being made.
structure InLoop (a : GenerateArgs α) (start stop : ℕ) (txns : a.Memory) (i : ℕ)
    (counts : ℕ → ℕ → Prop) : Prop where
  start_le : start ≤ i
  lt_stop : i < stop
  before : ∀ k, start ≤ k → k < i → a.Has txns k a.Made
  has : a.Has txns i counts

-- What a worker with the range from `start` to `stop` has done at a program counter.
def Knows (a : GenerateArgs α) (start stop : ℕ) (txns : a.Memory) : WorkerPC → Prop
  | .txn i => start ≤ i ∧ i ≤ stop ∧ ∀ k, start ≤ k → k < i → a.Has txns k a.Made
  | .objs i j => a.mixed ∧ j ≤ a.num_objs_per_txn.toNat ∧
      a.InLoop start stop txns i fun reads writes => reads + writes = j
  | .reads i j => ¬ a.mixed ∧ j ≤ a.num_reads.toNat ∧
      a.InLoop start stop txns i fun reads writes => reads = j ∧ writes = 0
  | .writes i j => ¬ a.mixed ∧ j ≤ a.num_reads.toNat ∧
      a.InLoop start stop txns i fun reads writes => reads = a.num_reads.toNat ∧ writes = j
  | .finished => ∀ k, start ≤ k → k < stop → a.Has txns k a.Made

section

variable {start stop i : ℕ} {txns txns' : a.Memory} {counts counts' : ℕ → ℕ → Prop}

theorem Has.congr (h : a.Has txns i counts) (hsame : ∀ hi : i < a.num_txns, txns' ⟨i, hi⟩ = txns ⟨i, hi⟩) :
    a.Has txns' i counts := by
  obtain ⟨hi, hholds⟩ := h
  exact ⟨hi, by rwa [hsame hi]⟩

-- What a worker knows is about its own range.
theorem Knows.congr {pc : WorkerPC} (h : a.Knows start stop txns pc)
    (hsame : ∀ k : Fin a.num_txns, start ≤ k → k < stop → txns' k = txns k) :
    a.Knows start stop txns' pc := by
  have hbefore {i : ℕ} (hi : i ≤ stop) (h : ∀ k, start ≤ k → k < i → a.Has txns k a.Made) :
      ∀ k, start ≤ k → k < i → a.Has txns' k a.Made := fun k hk hlt =>
    (h k hk hlt).congr fun _ => hsame _ hk (hlt.trans_le hi)
  have hloop {i : ℕ} {counts : ℕ → ℕ → Prop} (h : a.InLoop start stop txns i counts) :
      a.InLoop start stop txns' i counts :=
    ⟨h.start_le, h.lt_stop, hbefore h.lt_stop.le h.before,
      h.has.congr fun _ => hsame _ h.start_le h.lt_stop⟩
  cases pc with
  | txn i => exact ⟨h.1, h.2.1, hbefore h.2.1 h.2.2⟩
  | objs i j => exact ⟨h.1, h.2.1, hloop h.2.2⟩
  | reads i j => exact ⟨h.1, h.2.1, hloop h.2.2⟩
  | writes i j => exact ⟨h.1, h.2.1, hloop h.2.2⟩
  | finished => exact hbefore (Nat.le_refl stop) h

theorem modifyTxn_eq_ok {f : Txn → Except Abort Txn} (h : a.modifyTxn i f txns = .ok txns') :
    ∃ (hi : i < a.num_txns) (txn : Txn), f (txns ⟨i, hi⟩) = .ok txn ∧
      txns' = Function.update txns ⟨i, hi⟩ txn := by
  unfold modifyTxn at h
  split at h
  · next hi =>
      cases hf : f (txns ⟨i, hi⟩) with
      | error e =>
          rw [hf] at h
          cases h
      | ok txn =>
          rw [hf] at h
          cases h
          exact ⟨hi, txn, hf, rfl⟩
  · cases h

theorem addObj_eq_ok {d : Draw} {is_write : Bool} {full : Abort} {txn txn' : Txn}
    (h : a.addObj d is_write full txn = .ok txn') : ∃ obj : ObjId, obj.toNat < a.addr_space ∧
      record txn' = (record txn).append is_write [obj] := by
  unfold addObj at h
  obtain ⟨x, hx, h⟩ := bind_eq_ok.mp h
  have hlt : (BitVec.ofNat 32 x).toNat < a.addr_space :=
    (Nat.mod_le _ _).trans_lt
      ((Zipf.sample_zipf_lt (a.length_cdf ▸ a.addr_space_pos) hx).trans_eq a.length_cdf)
  exact ⟨BitVec.ofNat 32 x, hlt, record_of_pushOr h⟩

theorem Holds.append {r : Record} (h : a.Holds i counts r) {obj : ObjId}
    (hobj : obj.toNat < a.addr_space) {is_write : Bool}
    (hcounts : ∀ reads writes, counts reads writes →
      counts' (reads + if is_write then 0 else 1) (writes + if is_write then 1 else 0)) :
    a.Holds i counts' (r.append is_write [obj]) where
  id_eq := by
    rw [← h.id_eq]
    cases is_write <;> rfl
  counts_eq := by
    have hnext := hcounts _ _ h.counts_eq
    cases is_write <;> simpa [Record.append] using hnext
  below x hx := by
    rcases Record.mem_append.mp hx with hx | hx
    · exact h.below x hx
    · obtain rfl := List.mem_singleton.mp hx
      exact hobj

theorem inLoop_update (hstart : start ≤ i) (hstop : i < stop)
    (hbefore : ∀ k, start ≤ k → k < i → a.Has txns k a.Made) (hi : i < a.num_txns) {txn : Txn}
    (hholds : a.Holds i counts (record txn)) :
    a.InLoop start stop (Function.update txns ⟨i, hi⟩ txn) i counts where
  start_le := hstart
  lt_stop := hstop
  before k hk hlt := (hbefore k hk hlt).congr fun _ =>
    Function.update_of_ne (Fin.ne_of_val_ne hlt.ne) _ _
  has := ⟨hi, by rwa [Function.update_self]⟩

theorem InLoop.imp (h : a.InLoop start stop txns i counts)
    (himp : ∀ reads writes, counts reads writes → counts' reads writes) :
    a.InLoop start stop txns i counts' := by
  obtain ⟨hi, hholds⟩ := h.has
  exact ⟨h.start_le, h.lt_stop, h.before, hi, hholds.id_eq, himp _ _ hholds.counts_eq, hholds.below⟩

-- The turn of the outer loop, before the objects.
theorem inLoop_restart (hstart : start ≤ i) (hstop : i < stop)
    (hbefore : ∀ k, start ≤ k → k < i → a.Has txns k a.Made)
    (hmodify : a.modifyTxn i (fun txn => .ok (txn.restart (BitVec.ofNat 32 i) 0)) txns = .ok txns') :
    a.InLoop start stop txns' i fun reads writes => reads = 0 ∧ writes = 0 := by
  obtain ⟨hi, txn, htxn, rfl⟩ := modifyTxn_eq_ok hmodify
  cases htxn
  refine inLoop_update hstart hstop hbefore hi ⟨rfl, ⟨rfl, rfl⟩, ?_⟩
  rintro obj (hobj | hobj)
  · cases hobj
  · cases hobj

-- A turn of a loop adds an object to one of the arrays.
theorem InLoop.addObj {d : Draw} {is_write : Bool} {full : Abort}
    (h : a.InLoop start stop txns i counts)
    (hmodify : a.modifyTxn i (a.addObj d is_write full) txns = .ok txns')
    (hcounts : ∀ reads writes, counts reads writes →
      counts' (reads + if is_write then 0 else 1) (writes + if is_write then 1 else 0)) :
    a.InLoop start stop txns' i counts' := by
  obtain ⟨hi, txn, hadd, rfl⟩ := modifyTxn_eq_ok hmodify
  obtain ⟨obj, hobj, hrecord⟩ := addObj_eq_ok hadd
  obtain ⟨_, hholds⟩ := h.has
  refine inLoop_update h.start_le h.lt_stop h.before hi ?_
  rw [hrecord]
  exact hholds.append hobj hcounts

-- Behind its last loop a transaction is made.
theorem InLoop.next (h : a.InLoop start stop txns i counts)
    (hmade : ∀ reads writes, counts reads writes → a.Made reads writes) :
    a.Knows start stop txns (.txn (i + 1)) := by
  refine ⟨h.start_le.trans (Nat.le_succ i), h.lt_stop, fun k hk hlt => ?_⟩
  rcases Nat.lt_succ_iff_lt_or_eq.mp hlt with hlt | rfl
  · exact h.before k hk hlt
  · obtain ⟨hi, hholds⟩ := h.has
    exact ⟨hi, hholds.id_eq, hmade _ _ hholds.counts_eq, hholds.below⟩

theorem modifyTxn_frame {f : Txn → Except Abort Txn} (h : a.modifyTxn i f txns = .ok txns')
    {k : Fin a.num_txns} (hk : k.val ≠ i) : txns' k = txns k := by
  obtain ⟨hi, txn, -, rfl⟩ := modifyTxn_eq_ok h
  exact Function.update_of_ne (Fin.ne_of_val_ne hk) _ _

variable {j : ℕ} {bound : ℤ} {add : Txn → Except Abort Txn} {again after pc' : WorkerPC}

theorem objLoop_cases (h : a.objLoop i j bound add again after txns = some (.ok (txns', pc'))) :
    (j < bound ∧ a.modifyTxn i add txns = .ok txns' ∧ pc' = again) ∨
      (¬ j < bound ∧ txns' = txns ∧ pc' = after) := by
  unfold objLoop at h
  split_ifs at h with hlt
  · exact Or.inl ⟨hlt, map_eq_ok (Option.some.inj h)⟩
  · cases h
    exact Or.inr ⟨hlt, rfl, rfl⟩

theorem objLoop_frame (h : a.objLoop i j bound add again after txns = some (.ok (txns', pc')))
    {k : Fin a.num_txns} (hk : k.val ≠ i) : txns' k = txns k := by
  rcases objLoop_cases h with ⟨-, hmodify, -⟩ | ⟨-, rfl, -⟩
  · exact modifyTxn_frame hmodify hk
  · rfl

end

section

variable {t : Fin a.num_threads} {d : Draw} {txns txns' : a.Memory} {pc pc' : WorkerPC}

theorem worker_fn_txn {i : ℕ} (h : a.worker_fn t d txns (.txn i) = some (.ok (txns', pc'))) :
    (i < a.stop t ∧
        a.modifyTxn i (fun txn => .ok (txn.restart (BitVec.ofNat 32 i) 0)) txns = .ok txns' ∧
        pc' = if a.mixed then .objs i 0 else .reads i 0) ∨
      (¬ i < a.stop t ∧ txns' = txns ∧ pc' = .finished) := by
  rw [worker_fn] at h
  by_cases hi : i < a.stop t
  · rw [if_pos hi] at h
    obtain ⟨hmodify, hnext⟩ := map_eq_ok (Option.some.inj h)
    exact Or.inl ⟨hi, hmodify, hnext⟩
  · rw [if_neg hi] at h
    cases h
    exact Or.inr ⟨hi, rfl, rfl⟩

-- What a worker knows after a step.
theorem knows_step (hstep : a.worker_fn t d txns pc = some (.ok (txns', pc')))
    (h : a.Knows (a.start t) (a.stop t) txns pc) : a.Knows (a.start t) (a.stop t) txns' pc' := by
  cases pc with
  | txn i =>
      obtain ⟨hstart, hstop, hbefore⟩ := h
      rcases worker_fn_txn hstep with ⟨hi, hmodify, rfl⟩ | ⟨hi, rfl, rfl⟩
      · have hloop := inLoop_restart hstart hi hbefore hmodify
        by_cases hmixed : a.mixed
        · rw [if_pos hmixed]
          refine ⟨hmixed, Nat.zero_le _, hloop.imp fun reads writes hzero => ?_⟩
          omega
        · rw [if_neg hmixed]
          exact ⟨hmixed, Nat.zero_le _, hloop⟩
      · exact fun k hk hlt => hbefore k hk (hlt.trans_le (Nat.not_lt.mp hi))
  | objs i j =>
      obtain ⟨hmixed, hj, hloop⟩ := h
      rcases objLoop_cases hstep with ⟨hlt, hmodify, rfl⟩ | ⟨hlt, rfl, rfl⟩
      · refine ⟨hmixed, by omega, hloop.addObj hmodify fun reads writes hsum => ?_⟩
        split_ifs <;> omega
      · refine hloop.next fun reads writes hsum => ?_
        rw [Made, if_pos hmixed]
        omega
  | reads i j =>
      obtain ⟨hsplit, hj, hloop⟩ := h
      rcases objLoop_cases hstep with ⟨hlt, hmodify, rfl⟩ | ⟨hlt, rfl, rfl⟩
      · refine ⟨hsplit, by omega, hloop.addObj hmodify fun reads writes hcounts => ?_⟩
        simpa using hcounts
      · refine ⟨hsplit, Nat.zero_le _, hloop.imp fun reads writes hcounts => ?_⟩
        omega
  | writes i j =>
      obtain ⟨hsplit, hj, hloop⟩ := h
      rcases objLoop_cases hstep with ⟨hlt, hmodify, rfl⟩ | ⟨hlt, rfl, rfl⟩
      · refine ⟨hsplit, by omega, hloop.addObj hmodify fun reads writes hcounts => ?_⟩
        simpa using hcounts
      · refine hloop.next fun reads writes hcounts => ?_
        rw [Made, if_neg hsplit]
        omega
  | finished => cases hstep

-- A step of a worker leaves the transactions of the others alone.
theorem worker_frame (hstep : a.worker_fn t d txns pc = some (.ok (txns', pc')))
    (h : a.Knows (a.start t) (a.stop t) txns pc) {k : Fin a.num_txns}
    (hk : ¬ (a.start t ≤ k ∧ k < a.stop t)) : txns' k = txns k := by
  have hne {i : ℕ} (hstart : a.start t ≤ i) (hstop : i < a.stop t) : k.val ≠ i := by
    rintro rfl
    exact hk ⟨hstart, hstop⟩
  cases pc with
  | txn i =>
      rcases worker_fn_txn hstep with ⟨hi, hmodify, -⟩ | ⟨-, rfl, -⟩
      · exact modifyTxn_frame hmodify (hne h.1 hi)
      · rfl
  | objs i j => exact objLoop_frame hstep (hne h.2.2.start_le h.2.2.lt_stop)
  | reads i j => exact objLoop_frame hstep (hne h.2.2.start_le h.2.2.lt_stop)
  | writes i j => exact objLoop_frame hstep (hne h.2.2.start_le h.2.2.lt_stop)
  | finished => cases hstep

end

theorem knows_stable :
    Parallel.Stable a.worker_fn fun t txns pc => a.Knows (a.start t) (a.stop t) txns pc where
  keep := knows_step
  others hne hstep ht hu := hu.congr fun _ hstart hstop =>
    worker_frame hstep ht (outside_of_ne hne hstart hstop)

theorem knows_init (memory : a.Memory) (t : Fin a.num_threads) :
    a.Knows (a.start t) (a.stop t) memory (.txn (a.start t)) :=
  ⟨Nat.le_refl _, start_le_stop t, fun _ hk hlt => absurd hk (Nat.not_le.mpr hlt)⟩

-- The turns that a worker has still to take.
def turnsLeft (a : GenerateArgs α) (t : Fin a.num_threads) : WorkerPC → ℕ
  | .txn i => (a.stop t - i) * (a.num_objs_per_txn.toNat + 2 * a.num_reads.toNat + 4) + 1
  | .objs i j => (a.stop t - (i + 1)) * (a.num_objs_per_txn.toNat + 2 * a.num_reads.toNat + 4) +
      (a.num_objs_per_txn.toNat - j) + 2
  | .reads i j => (a.stop t - (i + 1)) * (a.num_objs_per_txn.toNat + 2 * a.num_reads.toNat + 4) +
      (a.num_reads.toNat - j) + a.num_reads.toNat + 3
  | .writes i j => (a.stop t - (i + 1)) * (a.num_objs_per_txn.toNat + 2 * a.num_reads.toNat + 4) +
      (a.num_reads.toNat - j) + 2
  | .finished => 0

theorem variant_turnsLeft : Parallel.Variant a.worker_fn a.turnsLeft := by
  intro t d txns pc txns' pc' hstep
  cases pc with
  | txn i =>
      rcases worker_fn_txn hstep with ⟨hi, -, rfl⟩ | ⟨-, -, rfl⟩
      · have hsucc : a.stop t - i = a.stop t - (i + 1) + 1 := by omega
        by_cases hmixed : a.mixed
        · rw [if_pos hmixed]
          simp only [turnsLeft]
          rw [hsucc, Nat.add_mul]
          omega
        · rw [if_neg hmixed]
          simp only [turnsLeft]
          rw [hsucc, Nat.add_mul]
          omega
      · exact Nat.succ_pos _
  | objs i j =>
      rcases objLoop_cases hstep with ⟨hlt, -, rfl⟩ | ⟨-, -, rfl⟩
      · simp only [turnsLeft]
        omega
      · simp only [turnsLeft]
        omega
  | reads i j =>
      rcases objLoop_cases hstep with ⟨hlt, -, rfl⟩ | ⟨-, -, rfl⟩
      · simp only [turnsLeft]
        omega
      · simp only [turnsLeft]
        omega
  | writes i j =>
      rcases objLoop_cases hstep with ⟨hlt, -, rfl⟩ | ⟨-, -, rfl⟩
      · simp only [turnsLeft]
        omega
      · simp only [turnsLeft]
        omega
  | finished => cases hstep

end GenerateArgs

end Puppetmaster.Runner
