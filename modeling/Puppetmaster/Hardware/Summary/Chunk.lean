import Mathlib.Data.List.FinRange
import Mathlib.Data.Set.Lattice
import Puppetmaster.Hardware.Types

namespace Puppetmaster.Hardware

-- Summary.bsv, the functions on one chunk

structure CheckResult where
  readObjFound : Fin MaxTxnReadObjs → BitVec NumBloomParts
  writeObjFound : Fin MaxTxnWriteObjs → BitVec NumBloomParts
  deriving DecidableEq

namespace CheckResult

def zero : CheckResult := ⟨fun _ => 0, fun _ => 0⟩

-- unpack(pack(a) | pack(b))
def or (a b : CheckResult) : CheckResult where
  readObjFound := fun i => a.readObjFound i ||| b.readObjFound i
  writeObjFound := fun i => a.writeObjFound i ||| b.writeObjFound i

end CheckResult

def checkResultIsGood (check : CheckResult) : Bool :=
  let readAllSet := (List.finRange MaxTxnReadObjs).any fun i =>
    check.readObjFound i == BitVec.allOnes NumBloomParts
  let writeAllSet := (List.finRange MaxTxnWriteObjs).any fun i =>
    check.writeObjFound i == BitVec.allOnes NumBloomParts
  !(readAllSet || writeAllSet)

def setBit {w : ℕ} (x : BitVec w) (i : ℕ) : BitVec w := x ||| BitVec.twoPow w i

-- The body of both object loops: part `j` of object `i`, whose locations are `locs`.
-- `parts` is what the chunk held before; the second component is the copy to modify.
def checkOrAddPart {n : ℕ} (parts : BloomChunkParts) (currentChunk : BloomChunkIndex) (i : Fin n)
    (locs : BloomLocation) (acc : (Fin n → BitVec NumBloomParts) × BloomChunkParts)
    (j : BloomPartIndex) : (Fin n → BitVec NumBloomParts) × BloomChunkParts :=
  let chunkIdx := (locs j).1
  let bitIdx := (locs j).2
  (if chunkIdx = currentChunk ∧ (parts j).getLsbD bitIdx = true then
      Function.update acc.1 i (setBit (acc.1 i) j)
    else acc.1,
    if chunkIdx = currentChunk then Function.update acc.2 j (setBit (acc.2 j) bitIdx)
    else acc.2)

def checkOrAddObjs {n : ℕ} (parts : BloomChunkParts) (currentChunk : BloomChunkIndex)
    (objs : Fin n → Option BloomLocation) (res : BloomChunkParts) :
    (Fin n → BitVec NumBloomParts) × BloomChunkParts :=
  (List.finRange n).foldl (fun acc i =>
    match objs i with
    | none => acc
    | some locs => (List.finRange NumBloomParts).foldl (checkOrAddPart parts currentChunk i locs) acc)
    (fun _ => 0, res)

def checkOrAddToChunk (parts : BloomChunkParts) (currentChunk : BloomChunkIndex)
    (txn : TxnFingerprint) : CheckResult × BloomChunkParts :=
  let reads := checkOrAddObjs parts currentChunk txn.readObjs parts
  let writes := checkOrAddObjs parts currentChunk txn.writeObjs reads.2
  (⟨reads.1, writes.1⟩, writes.2)

theorem getLsbD_setBit {w : ℕ} (x : BitVec w) (i j : ℕ) (hi : i < w) :
    (setBit x i).getLsbD j = (x.getLsbD j || decide (i = j)) := by
  rw [setBit, BitVec.getLsbD_or, BitVec.getLsbD_twoPow, decide_eq_true hi, Bool.true_and]

-- A fold every step of which ors something into an observed bit.
theorem foldl_observe {α β : Type*} (obs : β → Bool) (mark : α → Bool) (step : β → α → β)
    (hstep : ∀ acc x, obs (step acc x) = (obs acc || mark x)) (list : List α) (acc : β) :
    obs (list.foldl step acc) = (obs acc || list.any mark) := by
  induction list generalizing acc with
  | nil => simp
  | cons x rest ih => rw [List.foldl_cons, ih, hstep, List.any_cons, Bool.or_assoc]

section

variable {n : ℕ} (parts : BloomChunkParts) (currentChunk : BloomChunkIndex) (locs : BloomLocation)
  (acc : (Fin n → BitVec NumBloomParts) × BloomChunkParts)

theorem checkOrAddPart_found (i i' : Fin n) (j j' : BloomPartIndex) :
    ((checkOrAddPart parts currentChunk i' locs acc j').1 i).getLsbD j =
      ((acc.1 i).getLsbD j || (decide (i' = i) && (decide (j' = j) &&
        decide ((locs j').1 = currentChunk) && (parts j').getLsbD (locs j').2))) := by
  unfold checkOrAddPart
  by_cases hc : (locs j').1 = currentChunk ∧ (parts j').getLsbD (locs j').2 = true
  · simp only [hc, and_self, if_true]
    by_cases hi : i' = i
    · subst hi
      simp [getLsbD_setBit _ _ _ j'.isLt, Fin.ext_iff, -BitVec.getLsbD_eq_getElem]
    · simp [hi, Function.update_of_ne (Ne.symm hi)]
  · simp only [hc, if_false]
    simp only [not_and, Bool.not_eq_true] at hc
    by_cases hchunk : (locs j').1 = currentChunk
    · simp [hc hchunk, -BitVec.getLsbD_eq_getElem]
    · simp [hchunk]

theorem checkOrAddPart_res (i : Fin n) (j j' : BloomPartIndex) (b : BloomBitIndex) :
    ((checkOrAddPart parts currentChunk i locs acc j').2 j).getLsbD b =
      ((acc.2 j).getLsbD b || (decide (j' = j) && decide (locs j' = (currentChunk, b)))) := by
  unfold checkOrAddPart
  by_cases hc : (locs j').1 = currentChunk
  · by_cases hj : j' = j
    · subst hj
      simp [hc, getLsbD_setBit _ _ _ (locs j').2.isLt, Prod.ext_iff, Fin.ext_iff,
        -BitVec.getLsbD_eq_getElem]
    · simp [hc, hj, Function.update_of_ne (Ne.symm hj)]
  · simp [hc, Prod.ext_iff]

end

section

variable {n : ℕ} (parts : BloomChunkParts) (currentChunk : BloomChunkIndex)
  (objs : Fin n → Option BloomLocation) (res : BloomChunkParts)

-- Object `i` has part `j` found iff its location of that part lies in this chunk
-- and is set there.
theorem checkOrAddObjs_found (i : Fin n) (j : BloomPartIndex) :
    ((checkOrAddObjs parts currentChunk objs res).1 i).getLsbD j = true ↔
      ∃ locs, objs i = some locs ∧ (locs j).1 = currentChunk ∧
        (parts j).getLsbD (locs j).2 = true := by
  rw [checkOrAddObjs, foldl_observe
    (fun acc : (Fin n → BitVec NumBloomParts) × BloomChunkParts => (acc.1 i).getLsbD j)
    (fun i' => decide (i' = i) && ((objs i').any fun locs => (List.finRange NumBloomParts).any
      fun j' => decide (j' = j) && decide ((locs j').1 = currentChunk) &&
        (parts j').getLsbD (locs j').2))]
  · simp only [BitVec.ofNat_eq_ofNat, BitVec.getLsbD_zero, Bool.false_or, List.any_eq_true,
      List.mem_finRange, true_and, Bool.and_eq_true, decide_eq_true_eq, exists_eq_left,
      Option.any_eq_true]
    constructor
    · rintro ⟨locs, hlocs, j', ⟨rfl, hchunk⟩, hbit⟩
      exact ⟨locs, hlocs, hchunk, hbit⟩
    · rintro ⟨locs, hlocs, hchunk, hbit⟩
      exact ⟨locs, hlocs, j, ⟨rfl, hchunk⟩, hbit⟩
  · intro acc i'
    cases objs i' with
    | none => simp
    | some locs =>
        simp only [Option.any_some]
        refine (foldl_observe
          (fun acc : (Fin n → BitVec NumBloomParts) × BloomChunkParts => (acc.1 i).getLsbD j)
          (fun j' => decide (i' = i) && (decide (j' = j) && decide ((locs j').1 = currentChunk) &&
            (parts j').getLsbD (locs j').2)) _
          (fun acc j' => checkOrAddPart_found parts currentChunk locs acc i i' j j') _ _).trans ?_
        by_cases hi : i' = i <;> simp [hi]

-- The copy keeps its bits and gains the locations of the objects that lie in this chunk.
theorem checkOrAddObjs_res (j : BloomPartIndex) (b : BloomBitIndex) :
    ((checkOrAddObjs parts currentChunk objs res).2 j).getLsbD b = true ↔
      (res j).getLsbD b = true ∨ ∃ i locs, objs i = some locs ∧ locs j = (currentChunk, b) := by
  rw [checkOrAddObjs, foldl_observe
    (fun acc : (Fin n → BitVec NumBloomParts) × BloomChunkParts => (acc.2 j).getLsbD b)
    (fun i' => (objs i').any fun locs => (List.finRange NumBloomParts).any fun j' =>
      decide (j' = j) && decide (locs j' = (currentChunk, b)))]
  · simp only [Bool.or_eq_true, List.any_eq_true, List.mem_finRange, true_and, Bool.and_eq_true,
      decide_eq_true_eq, exists_eq_left, Option.any_eq_true]
  · intro acc i'
    cases objs i' with
    | none => simp
    | some locs =>
        exact foldl_observe
          (fun acc : (Fin n → BitVec NumBloomParts) × BloomChunkParts => (acc.2 j).getLsbD b)
          (fun j' => decide (j' = j) && decide (locs j' = (currentChunk, b))) _
          (fun acc j' => checkOrAddPart_res parts currentChunk locs acc i' j j' b) _ _

end

-- The Valid objects of a fingerprint, read or written.
def TxnFingerprint.objs (txn : TxnFingerprint) : Set BloomLocation :=
  {locs | (∃ i, txn.readObjs i = some locs) ∨ ∃ i, txn.writeObjs i = some locs}

theorem checkOrAddToChunk_readObjFound (parts : BloomChunkParts) (currentChunk : BloomChunkIndex)
    (txn : TxnFingerprint) (i : Fin MaxTxnReadObjs) (j : BloomPartIndex) :
    ((checkOrAddToChunk parts currentChunk txn).1.readObjFound i).getLsbD j = true ↔
      ∃ locs, txn.readObjs i = some locs ∧ (locs j).1 = currentChunk ∧
        (parts j).getLsbD (locs j).2 = true :=
  checkOrAddObjs_found _ _ _ _ _ _

theorem checkOrAddToChunk_writeObjFound (parts : BloomChunkParts) (currentChunk : BloomChunkIndex)
    (txn : TxnFingerprint) (i : Fin MaxTxnWriteObjs) (j : BloomPartIndex) :
    ((checkOrAddToChunk parts currentChunk txn).1.writeObjFound i).getLsbD j = true ↔
      ∃ locs, txn.writeObjs i = some locs ∧ (locs j).1 = currentChunk ∧
        (parts j).getLsbD (locs j).2 = true :=
  checkOrAddObjs_found _ _ _ _ _ _

theorem checkOrAddToChunk_res (parts : BloomChunkParts) (currentChunk : BloomChunkIndex)
    (txn : TxnFingerprint) (j : BloomPartIndex) (b : BloomBitIndex) :
    ((checkOrAddToChunk parts currentChunk txn).2 j).getLsbD b = true ↔
      (parts j).getLsbD b = true ∨ ∃ locs ∈ txn.objs, locs j = (currentChunk, b) := by
  simp only [checkOrAddToChunk, checkOrAddObjs_res, TxnFingerprint.objs, Set.mem_ofPred_eq]
  constructor
  · rintro ((h | ⟨i, locs, hi, hloc⟩) | ⟨i, locs, hi, hloc⟩)
    · exact Or.inl h
    · exact Or.inr ⟨locs, Or.inl ⟨i, hi⟩, hloc⟩
    · exact Or.inr ⟨locs, Or.inr ⟨i, hi⟩, hloc⟩
  · rintro (h | ⟨locs, ⟨i, hi⟩ | ⟨i, hi⟩, hloc⟩)
    · exact Or.inl (Or.inl h)
    · exact Or.inl (Or.inr ⟨i, locs, hi, hloc⟩)
    · exact Or.inr ⟨i, locs, hi, hloc⟩

-- The result is good iff no object has the bits of all its parts found.
theorem checkResultIsGood_iff (check : CheckResult) :
    checkResultIsGood check = true ↔
      (∀ i, ¬∀ j : BloomPartIndex, (check.readObjFound i).getLsbD j = true) ∧
        ∀ i, ¬∀ j : BloomPartIndex, (check.writeObjFound i).getLsbD j = true := by
  have hones : ∀ x : BitVec NumBloomParts,
      x = BitVec.allOnes NumBloomParts ↔ ∀ j : BloomPartIndex, x.getLsbD j = true := by
    intro x
    constructor
    · rintro rfl j
      simp
    · intro h
      apply BitVec.eq_of_getLsbD_eq
      intro j hj
      rw [h ⟨j, hj⟩, BitVec.getLsbD_allOnes, decide_eq_true hj]
  simp only [checkResultIsGood, Bool.not_eq_true', Bool.or_eq_false_iff, List.any_eq_false,
    List.mem_finRange, true_implies, beq_iff_eq, hones]

end Puppetmaster.Hardware
