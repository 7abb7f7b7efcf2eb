import Puppetmaster.Hardware.Summary.Chunk
import Puppetmaster.Library.Bloom

namespace Puppetmaster.Hardware

open Library

-- The bits of a memory that are set, as the (part, (chunk, bit)) pairs of a
-- partitioned Bloom filter.
def marked (mem : BloomMemory) : Set (BloomPartIndex × BloomPartLocation) :=
  {c | (mem c.2.1 c.1).getLsbD c.2.2 = true}

-- The add half of checkOrAddToChunk, on one chunk and on chunks 0..last.
def addChunk (t : TxnFingerprint) (mem : BloomMemory) (c : BloomChunkIndex) : BloomMemory :=
  Function.update mem c (checkOrAddToChunk (mem c) c t).2

def addAll (mem : BloomMemory) (t : TxnFingerprint) : BloomMemory :=
  (List.finRange NumBloomChunks).foldl (addChunk t) mem

-- The check half: the chunks one by one, stopping when the accumulated result is bad.
def checkChunks (mem : BloomMemory) (t : TxnFingerprint) :
    List BloomChunkIndex → CheckResult → CheckResult
  | [], compat => compat
  | c :: rest, compat =>
      let newCompat := compat.or (checkOrAddToChunk (mem c) c t).1
      if checkResultIsGood newCompat = true then checkChunks mem t rest newCompat else newCompat

def checkLoop (mem : BloomMemory) (t : TxnFingerprint) : CheckResult :=
  checkChunks mem t (List.finRange NumBloomChunks) CheckResult.zero

-- The same scan without the early exit.
def checkFull (mem : BloomMemory) (t : TxnFingerprint) : CheckResult :=
  (List.finRange NumBloomChunks).foldl
    (fun compat c => compat.or (checkOrAddToChunk (mem c) c t).1) CheckResult.zero

theorem mem_marked {mem : BloomMemory} {c : BloomPartIndex × BloomPartLocation} :
    c ∈ marked mem ↔ (mem c.2.1 c.1).getLsbD c.2.2 = true := Iff.rfl

theorem marked_injective : Function.Injective marked := by
  intro mem mem' h
  funext c j
  apply BitVec.eq_of_getLsbD_eq
  intro b hb
  rw [Bool.eq_iff_iff]
  exact Set.ext_iff.mp h (j, c, ⟨b, hb⟩)

theorem marked_addChunk (t : TxnFingerprint) (mem : BloomMemory) (k : BloomChunkIndex)
    (c : BloomPartIndex × BloomPartLocation) :
    c ∈ marked (addChunk t mem k) ↔
      c ∈ marked mem ∨ (c.2.1 = k ∧ ∃ locs ∈ t.objs, c.2 = locs c.1) := by
  obtain ⟨j, k', b⟩ := c
  simp only [mem_marked, addChunk]
  by_cases hk : k' = k
  · subst hk
    simp only [Function.update_self, checkOrAddToChunk_res, true_and, eq_comm (a := (k', b))]
  · simp only [Function.update_of_ne hk, hk, false_and, or_false]

theorem marked_foldl_addChunk (t : TxnFingerprint) (chunks : List BloomChunkIndex)
    (mem : BloomMemory) (c : BloomPartIndex × BloomPartLocation) :
    c ∈ marked (chunks.foldl (addChunk t) mem) ↔
      c ∈ marked mem ∨ (c.2.1 ∈ chunks ∧ ∃ locs ∈ t.objs, c.2 = locs c.1) := by
  induction chunks generalizing mem with
  | nil => simp
  | cons k rest ih =>
      rw [List.foldl_cons, ih, marked_addChunk, List.mem_cons, or_and_right, or_assoc]

theorem marked_addAll (mem : BloomMemory) (t : TxnFingerprint) :
    marked (addAll mem t) = Bloom.insert (marked mem) t.objs := by
  ext c
  simp only [addAll, marked_foldl_addChunk, List.mem_finRange, true_and, Bloom.mem_insert]

-- Each chunk is written once, from what it held before the loop.
theorem addAll_apply (mem : BloomMemory) (t : TxnFingerprint) (c : BloomChunkIndex) :
    addAll mem t c = (checkOrAddToChunk (mem c) c t).2 := by
  funext j
  apply BitVec.eq_of_getLsbD_eq
  intro b hb
  have hc := Set.ext_iff.mp (marked_addAll mem t) (j, c, ⟨b, hb⟩)
  rw [Bloom.mem_insert, mem_marked, mem_marked] at hc
  rw [Bool.eq_iff_iff, hc]
  have hres := checkOrAddToChunk_res (mem c) c t j ⟨b, hb⟩
  simp only [hres, eq_comm (a := (c, (⟨b, hb⟩ : BloomBitIndex)))]

-- A result accumulated over the chunks in `seen`: object `i` has part `j` found iff
-- its location of that part lies in a seen chunk and is marked.
structure Accumulates (mem : BloomMemory) (t : TxnFingerprint) (seen : Set BloomChunkIndex)
    (check : CheckResult) : Prop where
  reads : ∀ i (j : BloomPartIndex), (check.readObjFound i).getLsbD j = true ↔
    ∃ locs, t.readObjs i = some locs ∧ (locs j).1 ∈ seen ∧ (j, locs j) ∈ marked mem
  writes : ∀ i (j : BloomPartIndex), (check.writeObjFound i).getLsbD j = true ↔
    ∃ locs, t.writeObjs i = some locs ∧ (locs j).1 ∈ seen ∧ (j, locs j) ∈ marked mem

namespace Accumulates

variable {mem : BloomMemory} {t : TxnFingerprint} {seen : Set BloomChunkIndex}
  {check : CheckResult}

theorem zero : Accumulates mem t ∅ CheckResult.zero where
  reads i j := by simp [CheckResult.zero]
  writes i j := by simp [CheckResult.zero]

theorem or (h : Accumulates mem t seen check) (c : BloomChunkIndex) :
    Accumulates mem t (insert c seen) (check.or (checkOrAddToChunk (mem c) c t).1) where
  reads i j := by
    simp only [CheckResult.or, BitVec.getLsbD_or, Bool.or_eq_true, h.reads,
      checkOrAddToChunk_readObjFound, Set.mem_insert_iff, mem_marked]
    constructor
    · rintro (⟨locs, hi, hs, hm⟩ | ⟨locs, hi, rfl, hm⟩)
      · exact ⟨locs, hi, Or.inr hs, hm⟩
      · exact ⟨locs, hi, Or.inl rfl, hm⟩
    · rintro ⟨locs, hi, rfl | hs, hm⟩
      · exact Or.inr ⟨locs, hi, rfl, hm⟩
      · exact Or.inl ⟨locs, hi, hs, hm⟩
  writes i j := by
    simp only [CheckResult.or, BitVec.getLsbD_or, Bool.or_eq_true, h.writes,
      checkOrAddToChunk_writeObjFound, Set.mem_insert_iff, mem_marked]
    constructor
    · rintro (⟨locs, hi, hs, hm⟩ | ⟨locs, hi, rfl, hm⟩)
      · exact ⟨locs, hi, Or.inr hs, hm⟩
      · exact ⟨locs, hi, Or.inl rfl, hm⟩
    · rintro ⟨locs, hi, rfl | hs, hm⟩
      · exact Or.inr ⟨locs, hi, rfl, hm⟩
      · exact Or.inl ⟨locs, hi, hs, hm⟩

-- A bad result is final: whatever the other chunks hold, an object is already hit.
theorem not_compatible (h : Accumulates mem t seen check)
    (hbad : ¬checkResultIsGood check = true) : ¬Bloom.Compatible (marked mem) t.objs := by
  intro hcompat
  apply hbad
  rw [checkResultIsGood_iff]
  constructor
  · intro i hall
    obtain ⟨locs, hi, -⟩ := (h.reads i 0).mp (hall 0)
    apply hcompat locs (Or.inl ⟨i, hi⟩)
    intro j
    obtain ⟨locs', hi', -, hm⟩ := (h.reads i j).mp (hall j)
    obtain rfl := Option.some.inj (hi.symm.trans hi')
    exact hm
  · intro i hall
    obtain ⟨locs, hi, -⟩ := (h.writes i 0).mp (hall 0)
    apply hcompat locs (Or.inr ⟨i, hi⟩)
    intro j
    obtain ⟨locs', hi', -, hm⟩ := (h.writes i j).mp (hall j)
    obtain rfl := Option.some.inj (hi.symm.trans hi')
    exact hm

theorem good_iff (h : Accumulates mem t seen check) (hseen : ∀ c, c ∈ seen) :
    checkResultIsGood check = true ↔ Bloom.Compatible (marked mem) t.objs := by
  constructor
  · rw [checkResultIsGood_iff]
    rintro ⟨hreads, hwrites⟩ locs (⟨i, hi⟩ | ⟨i, hi⟩) hhit
    · exact hreads i fun j => (h.reads i j).mpr ⟨locs, hi, hseen _, hhit j⟩
    · exact hwrites i fun j => (h.writes i j).mpr ⟨locs, hi, hseen _, hhit j⟩
  · intro hcompat
    by_contra hbad
    exact h.not_compatible hbad hcompat

end Accumulates

theorem checkChunks_good_iff (mem : BloomMemory) (t : TxnFingerprint)
    (chunks : List BloomChunkIndex) (seen : Set BloomChunkIndex) (compat : CheckResult)
    (hacc : Accumulates mem t seen compat) (hall : ∀ c, c ∈ seen ∨ c ∈ chunks) :
    checkResultIsGood (checkChunks mem t chunks compat) = true ↔
      Bloom.Compatible (marked mem) t.objs := by
  induction chunks generalizing seen compat with
  | nil => exact hacc.good_iff fun c => (hall c).resolve_right (List.not_mem_nil)
  | cons c rest ih =>
      have hnext := hacc.or c
      rw [checkChunks]
      split
      · apply ih _ _ hnext
        intro d
        rcases hall d with hd | hd
        · exact Or.inl (Or.inr hd)
        · rcases List.mem_cons.mp hd with rfl | hd
          · exact Or.inl (Or.inl rfl)
          · exact Or.inr hd
      · rename_i hbad
        exact iff_of_false hbad (hnext.not_compatible hbad)

theorem checkLoop_good_iff (mem : BloomMemory) (t : TxnFingerprint) :
    checkResultIsGood (checkLoop mem t) = true ↔ Bloom.Compatible (marked mem) t.objs :=
  checkChunks_good_iff mem t _ ∅ _ Accumulates.zero fun c => Or.inr (List.mem_finRange c)

theorem accumulates_foldl (mem : BloomMemory) (t : TxnFingerprint)
    (chunks : List BloomChunkIndex) (seen : Set BloomChunkIndex) (compat : CheckResult)
    (hacc : Accumulates mem t seen compat) :
    Accumulates mem t (seen ∪ {c | c ∈ chunks})
      (chunks.foldl (fun compat c => compat.or (checkOrAddToChunk (mem c) c t).1) compat) := by
  induction chunks generalizing seen compat with
  | nil => simpa using hacc
  | cons c rest ih =>
      have hset : insert c seen ∪ {d | d ∈ rest} = seen ∪ {d | d ∈ c :: rest} := by
        ext d
        simp only [Set.mem_union, Set.mem_insert_iff, Set.mem_ofPred_eq, List.mem_cons]
        tauto
      simpa only [List.foldl_cons, hset] using ih _ _ (hacc.or c)

theorem checkFull_good_iff (mem : BloomMemory) (t : TxnFingerprint) :
    checkResultIsGood (checkFull mem t) = true ↔ Bloom.Compatible (marked mem) t.objs :=
  (accumulates_foldl mem t _ ∅ _ Accumulates.zero).good_iff fun c =>
    Or.inr (List.mem_finRange c)

theorem addAll_comm (mem : BloomMemory) (t u : TxnFingerprint) :
    addAll (addAll mem t) u = addAll (addAll mem u) t := by
  apply marked_injective
  simp only [marked_addAll]
  exact Bloom.insert_comm

theorem addAll_idem (mem : BloomMemory) (t : TxnFingerprint) :
    addAll (addAll mem t) t = addAll mem t := by
  apply marked_injective
  simp only [marked_addAll]
  exact Bloom.insert_idem

-- The chunked scan with early exit is a flat partitioned Bloom filter.
theorem chunked_scan_is_flat (mem : BloomMemory) (t : TxnFingerprint) :
    (∀ c, c ∈ marked (addAll mem t) ↔ c ∈ marked mem ∨ ∃ locs ∈ t.objs, c.2 = locs c.1) ∧
      (∀ u, addAll (addAll mem t) u = addAll (addAll mem u) t) ∧
      addAll (addAll mem t) t = addAll mem t ∧
      checkResultIsGood (checkLoop mem t) = checkResultIsGood (checkFull mem t) ∧
      (checkResultIsGood (checkLoop mem t) = true ↔
        ∀ locs ∈ t.objs, ¬∀ j, (j, locs j) ∈ marked mem) := by
  refine ⟨fun c => ?_, addAll_comm mem t, addAll_idem mem t, ?_, checkLoop_good_iff mem t⟩
  · rw [marked_addAll, Bloom.mem_insert]
  · rw [Bool.eq_iff_iff, checkLoop_good_iff, checkFull_good_iff]

end Puppetmaster.Hardware
