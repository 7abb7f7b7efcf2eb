import Puppetmaster.Hardware.TxnHasher
import Puppetmaster.Hardware.Summary.Flat
import Puppetmaster.Wrapper.Txn

namespace Puppetmaster.Hardware

open Library

-- The objects in the live slots of a hardware transaction.
def Transaction.reads (txn : Transaction) : Set ObjectId :=
  {obj | ∃ i, BitVec.ofNat 4 i.val < txn.numReadObjs ∧ txn.readObjs i = obj}

def Transaction.writes (txn : Transaction) : Set ObjectId :=
  {obj | ∃ i, BitVec.ofNat 4 i.val < txn.numWriteObjs ∧ txn.writeObjs i = obj}

-- Two transactions share an object that at least one of them writes.
def Transaction.Conflict (a b : Transaction) : Prop :=
  ∃ obj, (obj ∈ a.reads ∧ obj ∈ b.writes) ∨ (obj ∈ a.writes ∧ obj ∈ b.reads) ∨
    (obj ∈ a.writes ∧ obj ∈ b.writes)

theorem Transaction.Conflict.symm {a b : Transaction} (h : a.Conflict b) : b.Conflict a := by
  obtain ⟨obj, ⟨ha, hb⟩ | ⟨ha, hb⟩ | ⟨ha, hb⟩⟩ := h
  · exact ⟨obj, Or.inr (Or.inl ⟨hb, ha⟩)⟩
  · exact ⟨obj, Or.inl ⟨hb, ha⟩⟩
  · exact ⟨obj, Or.inr (Or.inr ⟨hb, ha⟩)⟩

theorem hashObject_mem_objs {txn : Transaction} {obj : ObjectId}
    (h : obj ∈ txn.reads ∨ obj ∈ txn.writes) : hashObject obj ∈ (hashTxn txn).objs := by
  rcases h with ⟨i, hlt, rfl⟩ | ⟨i, hlt, rfl⟩
  · exact Or.inl ⟨i, if_pos hlt⟩
  · exact Or.inr ⟨i, if_pos hlt⟩

-- Conflicting transactions have an object location in common.
theorem Transaction.Conflict.shared {a b : Transaction} (h : a.Conflict b) :
    ∃ locs, locs ∈ (hashTxn a).objs ∧ locs ∈ (hashTxn b).objs := by
  obtain ⟨obj, ⟨ha, hb⟩ | ⟨ha, hb⟩ | ⟨ha, hb⟩⟩ := h
  · exact ⟨_, hashObject_mem_objs (Or.inl ha), hashObject_mem_objs (Or.inr hb)⟩
  · exact ⟨_, hashObject_mem_objs (Or.inr ha), hashObject_mem_objs (Or.inl hb)⟩
  · exact ⟨_, hashObject_mem_objs (Or.inr ha), hashObject_mem_objs (Or.inr hb)⟩

-- A filter that holds every location of `a` is incompatible with all that conflicts with `a`.
theorem not_compatible_of_conflict {a b : Transaction} (h : a.Conflict b)
    {filter : Set (BloomPartIndex × BloomPartLocation)}
    (hsub : Bloom.insert ∅ (hashTxn a).objs ⊆ filter) :
    ¬Bloom.Compatible filter (hashTxn b).objs := by
  obtain ⟨locs, ha, hb⟩ := h.shared
  exact Bloom.not_compatible_of_shared ha hb hsub

-- pmhw_schedule of pmhw.cpp and addTransaction of Connectal.bsv: the first eight
-- slots of both arrays, the counts cut to four bits.
def addTransaction (txn : Wrapper.Txn) : Transaction where
  txnId := txn.id
  auxData := txn.aux_data.setWidth 64
  numReadObjs := BitVec.ofNat 4 txn.num_reads
  readObjs := fun i => txn.reads (i.castLE (by decide))
  numWriteObjs := BitVec.ofNat 4 txn.num_writes
  writeObjs := fun i => txn.writes (i.castLE (by decide))

def pmhw_schedule (txn : Wrapper.Txn) : Option Transaction :=
  if txn.num_reads ≤ 8 ∧ txn.num_writes ≤ 8 then some (addTransaction txn) else none

theorem pmhw_schedule_eq_some {txn : Wrapper.Txn} {sent : Transaction} :
    pmhw_schedule txn = some sent ↔
      (txn.num_reads ≤ 8 ∧ txn.num_writes ≤ 8) ∧ addTransaction txn = sent := by
  unfold pmhw_schedule
  split_ifs with h <;> simp [h]

-- Within the asserted bound the hardware sees exactly the live slots of the software.
theorem range_read_subset (txn : Wrapper.Txn) (h : txn.num_reads ≤ 8) :
    Set.range txn.read ⊆ (addTransaction txn).reads := by
  rintro _ ⟨i, rfl⟩
  have hi := i.isLt
  refine ⟨⟨i, hi.trans_le h⟩, ?_, rfl⟩
  simp only [addTransaction, BitVec.lt_def, BitVec.toNat_ofNat]
  omega

theorem range_write_subset (txn : Wrapper.Txn) (h : txn.num_writes ≤ 8) :
    Set.range txn.write ⊆ (addTransaction txn).writes := by
  rintro _ ⟨i, rfl⟩
  have hi := i.isLt
  refine ⟨⟨i, hi.trans_le h⟩, ?_, rfl⟩
  simp only [addTransaction, BitVec.lt_def, BitVec.toNat_ofNat]
  omega

theorem conflict_of_check_txn_conflict {a b : Wrapper.Txn} {a' b' : Transaction}
    (ha : pmhw_schedule a = some a') (hb : pmhw_schedule b = some b')
    (h : Wrapper.check_txn_conflict a b = true) : a'.Conflict b' := by
  obtain ⟨⟨har, haw⟩, rfl⟩ := pmhw_schedule_eq_some.mp ha
  obtain ⟨⟨hbr, hbw⟩, rfl⟩ := pmhw_schedule_eq_some.mp hb
  obtain ⟨obj, hobj⟩ := (Wrapper.check_txn_conflict_iff a b).mp h
  refine ⟨obj, ?_⟩
  rcases hobj with ⟨hx, hy⟩ | ⟨hx, hy⟩ | ⟨hx, hy⟩
  · exact Or.inl ⟨range_read_subset a har hx, range_write_subset b hbw hy⟩
  · exact Or.inr (Or.inl ⟨range_write_subset a haw hx, range_read_subset b hbr hy⟩)
  · exact Or.inr (Or.inr ⟨range_write_subset a haw hx, range_write_subset b hbw hy⟩)

theorem marked_foldl_addAll (mem : BloomMemory) (list : List TxnFingerprint) :
    marked (list.foldl addAll mem) =
      Bloom.insertList (marked mem) (list.map TxnFingerprint.objs) := by
  induction list generalizing mem with
  | nil => rfl
  | cons t rest ih => rw [List.foldl_cons, ih, marked_addAll]; rfl

theorem insert_subset_foldl_addAll (mem : BloomMemory) {list : List TxnFingerprint}
    {t : TxnFingerprint} (ht : t ∈ list) :
    Bloom.insert ∅ t.objs ⊆ marked (list.foldl addAll mem) := by
  intro c hc
  rw [marked_foldl_addAll, Bloom.mem_insertList]
  rw [Bloom.mem_insert] at hc
  rcases hc with hc | hc
  · exact absurd hc (Set.notMem_empty c)
  · exact Or.inr ⟨t.objs, List.mem_map.mpr ⟨t, ht, rfl⟩, hc⟩

def writesObjectZero : Wrapper.Txn := .writing 0 0

def readsSeven : Wrapper.Txn where
  id := BitVec.ofNat 32 6
  aux_data := BitVec.ofNat 32 0
  num_reads := 2
  num_writes := 2
  reads := fun i => BitVec.ofNat 32 (4 + 3 * i.val)
  writes := fun i => BitVec.ofNat 32 (8 + i.val)
  num_reads_le := Wrapper.two_le_max_txn_objs
  num_writes_le := Wrapper.two_le_max_txn_objs

-- The hardware test rejects everything the software test calls a conflict, whatever
-- the filter held and whatever is added before or after.
theorem conflict_never_missed (a b : Wrapper.Txn) (a' b' : Transaction)
    (ha : pmhw_schedule a = some a') (hb : pmhw_schedule b = some b')
    (hconflict : Wrapper.check_txn_conflict a b = true)
    (mem : BloomMemory) (before after : List TxnFingerprint) :
    checkResultIsGood
      (checkFull ((before ++ hashTxn a' :: after).foldl addAll mem) (hashTxn b')) = false := by
  rw [← Bool.not_eq_true, checkFull_good_iff]
  apply not_compatible_of_conflict (conflict_of_check_txn_conflict ha hb hconflict)
  exact insert_subset_foldl_addAll mem (by simp)

-- One transaction reads the object that the other one writes, the latter between two others in a
-- filter that is not empty.
theorem conflict_never_missed_between :
    checkResultIsGood (checkFull
      (([hashTxn (addTransaction (.writing 2 5))] ++ hashTxn (addTransaction (.writing 3 7)) ::
        [hashTxn (addTransaction (.writing 4 9))]).foldl addAll fun _ _ => 1)
      (hashTxn (addTransaction readsSeven))) = false :=
  conflict_never_missed (.writing 3 7) readsSeven _ _ rfl rfl (by decide) (fun _ _ => 1) [_] [_]

end Puppetmaster.Hardware
