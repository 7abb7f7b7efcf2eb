import Mathlib.Data.Fintype.Pi
import Mathlib.Data.Nat.Notation

namespace Puppetmaster.Hardware

-- BasicTypes.bsv

abbrev MaxTxnReadObjs : ℕ := 8
abbrev MaxTxnWriteObjs : ℕ := 8
abbrev MaxNumPuppets : ℕ := 16

-- For the numerals of the index types.
theorem maxNumPuppets_ne_zero : MaxNumPuppets ≠ 0 := by decide

instance : @NeZero ℕ Zero.ofOfNat0 MaxNumPuppets := ⟨maxNumPuppets_ne_zero⟩

abbrev TransactionId := BitVec 32
abbrev AuxData := BitVec 64
abbrev ObjectId := BitVec 32
abbrev Timestamp := BitVec 64

-- MainTypes.bsv. An index type is the range it indexes; every size the source
-- indexes by is a power of two, so its bit vectors hold just these values.

structure Transaction where
  txnId : TransactionId
  auxData : AuxData
  numReadObjs : BitVec 4
  readObjs : Fin MaxTxnReadObjs → ObjectId
  numWriteObjs : BitVec 4
  writeObjs : Fin MaxTxnWriteObjs → ObjectId
  deriving DecidableEq

abbrev NumBloomParts : ℕ := 4
abbrev NumBloomChunks : ℕ := 4
abbrev BloomChunkSize : ℕ := 256

theorem numBloomChunks_ne_zero : NumBloomChunks ≠ 0 := by decide

instance : @NeZero ℕ Zero.ofOfNat0 NumBloomChunks := ⟨numBloomChunks_ne_zero⟩

abbrev BloomPartIndex := Fin NumBloomParts
abbrev BloomChunkIndex := Fin NumBloomChunks
abbrev BloomBitIndex := Fin BloomChunkSize

abbrev BloomPartSize : ℕ := NumBloomChunks * BloomChunkSize
abbrev BloomChunk := BitVec BloomChunkSize
abbrev BloomChunkParts := BloomPartIndex → BloomChunk

abbrev BloomPartLocation := BloomChunkIndex × BloomBitIndex
abbrev BloomLocation := BloomPartIndex → BloomPartLocation

structure TxnFingerprint where
  txnId : TransactionId
  auxData : AuxData
  readObjs : Fin MaxTxnReadObjs → Option BloomLocation
  writeObjs : Fin MaxTxnWriteObjs → Option BloomLocation
  deriving DecidableEq

abbrev BloomObjCount := BitVec 20

-- The contents of the block RAM of a summary: one word of all parts for each chunk.
abbrev BloomMemory := BloomChunkIndex → BloomChunkParts

end Puppetmaster.Hardware
