import Puppetmaster.Model.BloomFilter
import Puppetmaster.Model.Scheduler

namespace Puppetmaster.Model

open Library

-- Nothing where the loop of the scheduler is cut off.
abbrev Scheduler (σ : Type) := List (Transaction σ) → Option (Except Exn (List (Transaction σ)))

def CompressedScheduler.schedule {σ : Type} [MutableSet σ] (order : FrozensetOrder ℤ)
    (underlying : Scheduler σ) (family : σ) (all_txns : List (Transaction (Finset ℤ))) :
    Option (Except Exn (List (Transaction σ))) :=
  match compress_workload order all_txns family with
  | .ok txns => underlying txns
  | .error e => some (.error e)

variable {txns : List (Transaction (Finset ℤ))}

-- The ids of what is scheduled are those of transactions that are compatible with each other.
def Sound {σ : Type} (txns : List (Transaction (Finset ℤ))) (out : List (Transaction σ)) : Prop :=
  ∃ js : List (Fin txns.length), out.map Transaction.ids = js.map (fun j => {j.val}) ∧ js.Nodup ∧
    js.Pairwise fun i j => (txns.get i).Compatible (txns.get j)

section

variable {len_per_part : ℕ} {fns : List HashFn} {family : ParallelBloomFilter}
  (hfamily : family.Marks len_per_part fns ∅) (hfns : ∀ fn ∈ fns, ∀ elem, fn.call elem < len_per_part)
  (order : FrozensetOrder ℤ)

include hfamily hfns

theorem foldlM_add_family (objs : Finset ℤ) :
    ∃ filter, (order.toList objs).foldlM MutableSet.add family = .ok filter ∧
      filter.Marks len_per_part fns objs := by
  obtain ⟨filter, hfilter, hmarks⟩ := hfamily.foldlM_add (order.toList objs) hfns
  have hobjs : ∅ ∪ {obj | obj ∈ order.toList objs} = (objs : Set ℤ) := by
    ext obj
    simp [order.mem]
  exact ⟨filter, hfilter, hobjs ▸ hmarks⟩

-- A compressed transaction stands for the one that it was made from.
theorem compress_transaction_ok (hids : ∀ i (hi : i < txns.length), txns[i].ids = {i})
    (i : Fin txns.length) :
    ∃ ts, compress_transaction order (txns.get i) family = .ok ts ∧ ts.ids = {i.val} ∧
      Stands txns.get (ParallelBloomFilter.marks len_per_part fns) ts {i} := by
  obtain ⟨read_set, hread, hmarks_read⟩ := foldlM_add_family hfamily hfns order (txns.get i).read_set
  obtain ⟨write_set, hwrite, hmarks_write⟩ := foldlM_add_family hfamily hfns order (txns.get i).write_set
  have hexact := stands_get hids i
  refine ⟨⟨(txns.get i).ids, read_set, write_set⟩, ?_, hids i i.isLt, hexact.ids, ?_, ?_⟩
  · rw [compress_transaction, hread, ok_bind, hwrite]
    rfl
  · rwa [readSet_singleton]
  · rwa [writeSet_singleton]

-- The scheduler that is underneath works on transactions that stand for the original ones.
theorem compress_workload_ok (hids : ∀ i (hi : i < txns.length), txns[i].ids = {i}) :
    ∃ f : Fin txns.length → Transaction ParallelBloomFilter,
      compress_workload order txns family = .ok ((List.finRange txns.length).map f) ∧
        (∀ i, (f i).ids = {i.val}) ∧
        ∀ i, Stands txns.get (ParallelBloomFilter.marks len_per_part fns) (f i) {i} := by
  choose f hf hfids hstands using compress_transaction_ok hfamily hfns order hids
  refine ⟨f, ?_, hfids, hstands⟩
  have hmap : ((List.finRange txns.length).map txns.get).mapM (fun txn => compress_transaction order txn family) =
      .ok ((List.finRange txns.length).map f) := mapM_map_ok fun i _ => hf i
  rwa [List.map_get_finRange] at hmap

end

-- Scheduling filters instead of sets is sound, whatever positions the objects have.
theorem compressed_schedule_sound (hids : ∀ i (hi : i < txns.length), txns[i].ids = {i})
    (hne : txns ≠ []) (len_per_part num_partitions : ℕ) (hparts : 1 ≤ num_partitions)
    (hash_fn : ℕ → HashFn) (hhash : ∀ i < num_partitions, ∀ elem, (hash_fn i).call elem < len_per_part)
    (order : FrozensetOrder ℤ) :
    ∃ family, make_parallel_bloom_filter_family (len_per_part * num_partitions) num_partitions hash_fn =
        .ok family ∧
      (∃ out, CompressedScheduler.schedule order (fun txns => some (GreedyScheduler.schedule txns)) family
        txns = some (.ok out) ∧ Sound txns out) ∧
      ∀ (idOrder : FrozensetOrder ℕ) (k fuel : ℕ), txns.length = 2 ^ k → k < fuel →
        ∃ out, CompressedScheduler.schedule order (TournamentScheduler.schedule idOrder fuel) family txns =
          some (.ok out) ∧ Sound txns out := by
  obtain ⟨family, hfamily, hmarks⟩ :=
    make_parallel_bloom_filter_family_eq hparts len_per_part hash_fn
  have hfns : ∀ fn ∈ (List.range num_partitions).map hash_fn, ∀ elem, fn.call elem < len_per_part :=
    List.forall_mem_map.mpr fun i hi => hhash i (List.mem_range.mp hi)
  obtain ⟨f, hcompress, hfids, hstands⟩ := compress_workload_ok hmarks hfns order hids
  have hout (js : List (Fin txns.length)) :
      (js.map f).map Transaction.ids = js.map fun j => {j.val} := by
    rw [List.map_map]
    exact List.map_congr_left fun j _ => hfids j
  refine ⟨family, hfamily, ?_, fun idOrder k fuel hlength hfuel => ?_⟩
  · obtain ⟨js, hschedule, hsub, -, hjs, -⟩ :=
      GreedyScheduler.schedule_eq hstands (List.length_pos_of_ne_nil hne)
    refine ⟨js.map f, ?_, js, hout js, (List.nodup_finRange _).sublist hsub, hjs⟩
    simp only [CompressedScheduler.schedule, hcompress, hschedule]
  · obtain ⟨js, hschedule, hnodup, -, hjs⟩ :=
      TournamentScheduler.schedule_eq hstands idOrder hlength hfuel
    refine ⟨js.map f, ?_, js, hout js, hnodup, hjs⟩
    simp only [CompressedScheduler.schedule, hcompress, hschedule]

theorem compressed_schedule_sound_fourTxns :
    ∃ family out, make_parallel_bloom_filter_family (4 * 2) 2
        (fun i => make_hash_function i (2 * (2 ^ 40 + i) + 1) 4) = .ok family ∧
      CompressedScheduler.schedule (sortedOrder ℤ) (TournamentScheduler.schedule (sortedOrder ℕ) 3) family
        fourTxns = some (.ok out) ∧ Sound fourTxns out := by
  have hids : ∀ i (hi : i < fourTxns.length), fourTxns[i].ids = {i} := by decide
  obtain ⟨family, hfamily, -, htournament⟩ := compressed_schedule_sound hids (List.cons_ne_nil _ _)
    4 2 (by decide) (fun i => make_hash_function i (2 * (2 ^ 40 + i) + 1) 4)
    (fun i _ elem => make_hash_function_lt i _ (by decide) elem) (sortedOrder ℤ)
  obtain ⟨out, hout, hsound⟩ := htournament (sortedOrder ℕ) 2 3 rfl (by decide)
  exact ⟨family, out, hfamily, hout, hsound⟩

end Puppetmaster.Model
