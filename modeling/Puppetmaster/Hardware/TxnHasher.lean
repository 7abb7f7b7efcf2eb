import Mathlib.Data.Nat.Bitwise
import Mathlib.Analysis.Real.Sqrt
import Mathlib.Algebra.Order.Floor.Semiring
import Mathlib.Tactic.FieldSimp
import Mathlib.Tactic.NormNum
import Mathlib.Tactic.Linarith
import Puppetmaster.Hardware.Types

namespace Puppetmaster.Hardware

-- TxnHasher.bsv

abbrev NBits : ℕ := NumBloomParts * Nat.log2 BloomPartSize

-- trunc(2^NBits / (1.0 + sqrt(5.0)) * 2.0)
def fibTrunc : ℕ := 679535556991

def fibConstant : ℕ := if fibTrunc % 2 = 0 then fibTrunc + 1 else fibTrunc

theorem fibTrunc_eq_floor : ⌊(2 ^ NBits / (1 + Real.sqrt 5) * 2 : ℝ)⌋₊ = fibTrunc := by
  have hnbits : NBits = 40 := rfl
  have hbits : (2 ^ NBits : ℝ) = 1099511627776 := by norm_num [hnbits]
  have hpos : (0 : ℝ) < 1 + Real.sqrt 5 := by positivity
  have hlo : Real.sqrt 5 < 2 * 1099511627776 / 679535556991 - 1 := by
    rw [Real.sqrt_lt' (by norm_num)]
    norm_num
  have hhi : 2 * 1099511627776 / 679535556992 - 1 < Real.sqrt 5 := by
    rw [Real.lt_sqrt (by norm_num)]
    norm_num
  rw [Nat.floor_eq_iff (by positivity), hbits, div_mul_eq_mul_div, le_div_iff₀ hpos, div_lt_iff₀ hpos]
  norm_num [fibTrunc]
  constructor <;> linarith

def fullHash (fibConstantBit : BitVec NBits) (obj : ObjectId) : BitVec NBits :=
  (obj.setWidth (NBits + 32)).setWidth NBits * fibConstantBit

def hashObjectWith (fibConstantBit : BitVec NBits) (obj : ObjectId) : BloomLocation := fun i =>
  let hash := fullHash fibConstantBit obj
  let chunkIdx : BloomChunkIndex := ⟨Nat.ofBits fun j : Fin (Nat.log2 NumBloomChunks) =>
    hash.getLsbD (j * NumBloomParts + i + Nat.log2 BloomChunkSize), Nat.ofBits_lt_two_pow _⟩
  let bitIdx : BloomBitIndex := ⟨Nat.ofBits fun j : Fin (Nat.log2 BloomChunkSize) =>
    hash.getLsbD (j * NumBloomParts + i), Nat.ofBits_lt_two_pow _⟩
  (chunkIdx, bitIdx)

def hashObject (obj : ObjectId) : BloomLocation :=
  hashObjectWith (BitVec.ofNat NBits fibConstant) obj

def hashTxn (txn : Transaction) : TxnFingerprint where
  txnId := txn.txnId
  auxData := txn.auxData
  readObjs := fun i =>
    if BitVec.ofNat 4 i < txn.numReadObjs then some (hashObject (txn.readObjs i)) else none
  writeObjs := fun i =>
    if BitVec.ofNat 4 i < txn.numWriteObjs then some (hashObject (txn.writeObjs i)) else none

end Puppetmaster.Hardware
