import Puppetmaster.Hardware.TxnHasher
import Puppetmaster.Library.Bits

namespace Puppetmaster.Hardware

open Library

-- hashes.py: the hash that hashObject was designed from.

-- int((1 << n_bits) // ((1 + 5 ** 0.5) / 2)) | 1, for n_bits = NBits
def fib_constant : ℕ := fibTrunc ||| 1

def fibonacci_hash (obj n_bits : ℕ) : ℕ := obj * fib_constant &&& (1 <<< n_bits) - 1

def interleaved_fibonacci_hash (n_parts index_length obj part_index : ℕ) : ℕ :=
  gather (fun bit_position => part_index + bit_position * n_parts) index_length
    (fibonacci_hash obj (n_parts * index_length))

theorem fib_constant_eq_floor : ⌊(2 ^ NBits / ((1 + Real.sqrt 5) / 2) : ℝ)⌋₊ ||| 1 = fib_constant := by
  rw [div_div_eq_mul_div, mul_div_right_comm, fibTrunc_eq_floor, fib_constant]

-- The index of a location within its part: the chunk, then the bit in the chunk.
def partIndex (loc : BloomPartLocation) : ℕ := loc.1 * BloomChunkSize + loc.2

theorem log2_bloomChunkSize : Nat.log2 BloomChunkSize = 8 := by decide

theorem log2_numBloomChunks : Nat.log2 NumBloomChunks = 2 := by decide

theorem log2_bloomPartSize : Nat.log2 BloomPartSize = 10 := by decide

theorem nBits_eq : NBits = 40 := by decide

variable {fibConstantBit : BitVec NBits} {obj : ObjectId} {i : BloomPartIndex} {j : ℕ}

theorem testBit_bitIdx (fibConstantBit : BitVec NBits) (obj : ObjectId) (i : BloomPartIndex)
    (hj : j < 8) : (hashObjectWith fibConstantBit obj i).2.val.testBit j =
      (fullHash fibConstantBit obj).getLsbD (j * 4 + i) := by
  simp only [hashObjectWith]
  exact Nat.testBit_ofBits_lt _ j (log2_bloomChunkSize.symm ▸ hj)

theorem testBit_chunkIdx (fibConstantBit : BitVec NBits) (obj : ObjectId) (i : BloomPartIndex)
    (hj : j < 2) : (hashObjectWith fibConstantBit obj i).1.val.testBit j =
      (fullHash fibConstantBit obj).getLsbD (j * 4 + i + 8) := by
  simp only [hashObjectWith, log2_bloomChunkSize]
  exact Nat.testBit_ofBits_lt _ j (log2_numBloomChunks.symm ▸ hj)

theorem testBit_partIndex_low (loc : BloomPartLocation) (hj : j < 8) :
    (partIndex loc).testBit j = loc.2.val.testBit j := by
  have h := Nat.testBit_two_pow_mul_add (i := 8) loc.1.val loc.2.isLt j
  rw [if_pos hj] at h
  rw [partIndex, Nat.mul_comm]
  exact h

theorem testBit_partIndex_high (loc : BloomPartLocation) (j : ℕ) :
    (partIndex loc).testBit (j + 8) = loc.1.val.testBit j := by
  have h := Nat.testBit_two_pow_mul_add (i := 8) loc.1.val loc.2.isLt (j + 8)
  rw [if_neg (by omega), Nat.add_sub_cancel] at h
  rw [partIndex, Nat.mul_comm]
  exact h

theorem partIndex_lt (loc : BloomPartLocation) : partIndex loc < 2 ^ 10 := by
  have hchunk := loc.1.isLt
  have hbit := loc.2.isLt
  simp only [partIndex, NumBloomChunks, BloomChunkSize] at *
  omega

-- The bits of fullHash are those of the product of the two numbers.
theorem getLsbD_fullHash (hj : j < 40) : (fullHash fibConstantBit obj).getLsbD j =
    (obj.toNat * fibConstantBit.toNat).testBit j := by
  have hobj : ((obj.setWidth (NBits + 32)).setWidth NBits).toNat = obj.toNat := by
    have hlt := obj.isLt
    simp only [BitVec.toNat_setWidth, nBits_eq]
    omega
  rw [fullHash, ← BitVec.testBit_toNat, BitVec.toNat_mul, hobj, Nat.testBit_mod_two_pow,
    decide_eq_true (nBits_eq.symm ▸ hj), Bool.true_and]

-- Every bit of the index is the bit of fullHash that the interleaving gives it.
def Interleaved (fibConstantBit : BitVec NBits) (obj : ObjectId) (i : BloomPartIndex) : Prop :=
  ∀ j < Nat.log2 BloomPartSize, (partIndex (hashObjectWith fibConstantBit obj i)).testBit j =
    (fullHash fibConstantBit obj).getLsbD (j * NumBloomParts + i)

theorem interleaved_def : Interleaved fibConstantBit obj i ↔
    ∀ j < 10, (partIndex (hashObjectWith fibConstantBit obj i)).testBit j =
      (fullHash fibConstantBit obj).getLsbD (j * 4 + i) := by
  rw [Interleaved, log2_bloomPartSize]

-- The chunk index is read log2(BloomChunkSize) bits into fullHash, in the middle of the
-- bits of the bit indices, and not after all of them.
theorem interleaved_iff : Interleaved fibConstantBit obj i ↔
    (fullHash fibConstantBit obj).getLsbD (i + 8) = (fullHash fibConstantBit obj).getLsbD (i + 32) ∧
      (fullHash fibConstantBit obj).getLsbD (i + 12) =
        (fullHash fibConstantBit obj).getLsbD (i + 36) := by
  have hchunk : ∀ j < 2, (partIndex (hashObjectWith fibConstantBit obj i)).testBit (j + 8) =
      (fullHash fibConstantBit obj).getLsbD (i + 8 + 4 * j) := fun j hj => by
    rw [testBit_partIndex_high, testBit_chunkIdx _ _ _ hj]
    congr 1
    omega
  have hinterleaved : ∀ j, (fullHash fibConstantBit obj).getLsbD ((j + 8) * 4 + i) =
      (fullHash fibConstantBit obj).getLsbD (i + 32 + 4 * j) := fun j => by
    congr 1
    omega
  rw [interleaved_def]
  constructor
  · intro h
    have h0 := h (0 + 8) (by decide)
    have h1 := h (1 + 8) (by decide)
    rw [hchunk 0 (by decide), hinterleaved] at h0
    rw [hchunk 1 (by decide), hinterleaved] at h1
    exact ⟨h0, h1⟩
  · rintro ⟨h0, h1⟩ j hj
    by_cases hlow : j < 8
    · rw [testBit_partIndex_low _ hlow, testBit_bitIdx _ _ _ hlow]
    · obtain ⟨j, rfl⟩ : ∃ k, j = k + 8 := ⟨j - 8, by omega⟩
      rw [hchunk j (by omega), hinterleaved]
      obtain rfl | rfl : j = 0 ∨ j = 1 := by omega
      · exact h0
      · exact h1

theorem fib_constant_eq : (BitVec.ofNat NBits fibConstant).toNat = fib_constant := by decide

theorem testBit_interleaved_fibonacci_hash (hj : j < 10) :
    (interleaved_fibonacci_hash 4 10 obj.toNat i).testBit j =
      (fullHash (BitVec.ofNat NBits fibConstant) obj).getLsbD (j * 4 + i) := by
  have hi : i.val < 4 := i.isLt
  have hsource : j * 4 + i.val < 40 := by omega
  rw [interleaved_fibonacci_hash, testBit_gather, decide_eq_true hj, Bool.true_and, fibonacci_hash,
    Nat.one_shiftLeft, Nat.and_two_pow_sub_one_eq_mod, Nat.testBit_mod_two_pow, Nat.add_comm,
    decide_eq_true hsource, Bool.true_and, getLsbD_fullHash hsource, fib_constant_eq]

-- The reference hash reads the interleaved bits of the same product.
theorem partIndex_eq_iff : partIndex (hashObject obj i) =
    interleaved_fibonacci_hash NumBloomParts (Nat.log2 BloomPartSize) obj.toNat i ↔
      Interleaved (BitVec.ofNat NBits fibConstant) obj i := by
  rw [interleaved_def, log2_bloomPartSize]
  constructor
  · intro h j hj
    rw [← testBit_interleaved_fibonacci_hash hj]
    exact congrArg (Nat.testBit · j) h
  · intro h
    refine eq_of_testBit_lt (partIndex_lt _) (gather_lt _ _ _) fun j hj => ?_
    exact (h j hj).trans (testBit_interleaved_fibonacci_hash hj).symm

-- The chunk of a location is two bits of its bit index.
theorem chunkIdx_eq (fibConstantBit : BitVec NBits) (obj : ObjectId) (i : BloomPartIndex) :
    (hashObjectWith fibConstantBit obj i).1.val =
      (hashObjectWith fibConstantBit obj i).2.val / 2 ^ 2 % 2 ^ 2 := by
  have hlt : (hashObjectWith fibConstantBit obj i).1.val < 2 ^ 2 := Fin.isLt _
  refine eq_of_testBit_lt hlt (Nat.mod_lt _ (Nat.two_pow_pos 2)) fun j hj => ?_
  rw [testBit_chunkIdx _ _ _ hj, Nat.testBit_mod_two_pow, decide_eq_true hj, Bool.true_and,
    Nat.testBit_div_two_pow, testBit_bitIdx _ _ _ (by omega)]
  congr 1
  omega

-- The bit indices of an object are the low 32 bits of fullHash, and say all of its location.
theorem hashObjectWith_eq_iff {x y : ObjectId} :
    hashObjectWith fibConstantBit x = hashObjectWith fibConstantBit y ↔
      ∀ j < 32, (fullHash fibConstantBit x).getLsbD j = (fullHash fibConstantBit y).getLsbD j := by
  constructor
  · intro h j hj
    have hpart : j % 4 < NumBloomParts := Nat.mod_lt _ (by decide)
    have hbit : j / 4 < 8 := by omega
    have hx := testBit_bitIdx fibConstantBit x ⟨j % 4, hpart⟩ hbit
    have hy := testBit_bitIdx fibConstantBit y ⟨j % 4, hpart⟩ hbit
    rw [h] at hx
    have hsource : j / 4 * 4 + j % 4 = j := by omega
    exact hsource ▸ hx.symm.trans hy
  · intro h
    funext i
    have hi : i.val < 4 := i.isLt
    have hbit : (hashObjectWith fibConstantBit x i).2 = (hashObjectWith fibConstantBit y i).2 := by
      have hx : (hashObjectWith fibConstantBit x i).2.val < 2 ^ 8 := Fin.isLt _
      have hy : (hashObjectWith fibConstantBit y i).2.val < 2 ^ 8 := Fin.isLt _
      refine Fin.ext (eq_of_testBit_lt hx hy fun j hj => ?_)
      rw [testBit_bitIdx _ _ _ hj, testBit_bitIdx _ _ _ hj]
      exact h _ (by omega)
    refine Prod.ext (Fin.ext ?_) hbit
    rw [chunkIdx_eq, chunkIdx_eq, hbit]

-- The product of the object and the constant has the same bits where the chunk index is
-- read and where it should be read.
def Repeats (obj : ObjectId) (i : BloomPartIndex) : Prop :=
  (obj.toNat * fibConstant).testBit (i + 8) = (obj.toNat * fibConstant).testBit (i + 32) ∧
    (obj.toNat * fibConstant).testBit (i + 12) = (obj.toNat * fibConstant).testBit (i + 36)

theorem interleaved_iff_repeats :
    Interleaved (BitVec.ofNat NBits fibConstant) obj i ↔ Repeats obj i := by
  have hi : i.val < 4 := i.isLt
  have hconstant : (BitVec.ofNat NBits fibConstant).toNat = fibConstant := by decide
  rw [interleaved_iff, getLsbD_fullHash (by omega), getLsbD_fullHash (by omega),
    getLsbD_fullHash (by omega), getLsbD_fullHash (by omega), hconstant, Repeats]

-- An object is hashed as it was designed to be in just these cases. In no case does the
-- chunk add to the bit index, or an object's location use the top eight bits of fullHash.
theorem hashObject_interleaved_iff (obj : ObjectId) (i : BloomPartIndex) :
    (Interleaved (BitVec.ofNat NBits fibConstant) obj i ↔ Repeats obj i) ∧
      (partIndex (hashObject obj i) =
        interleaved_fibonacci_hash NumBloomParts (Nat.log2 BloomPartSize) obj.toNat i ↔
          Repeats obj i) ∧
      (hashObject obj i).1.val = (hashObject obj i).2.val / 2 ^ 2 % 2 ^ 2 ∧
      ∀ other, (∀ j < 32, (fullHash (BitVec.ofNat NBits fibConstant) obj).getLsbD j =
        (fullHash (BitVec.ofNat NBits fibConstant) other).getLsbD j) →
          hashObject obj = hashObject other :=
  ⟨interleaved_iff_repeats, partIndex_eq_iff.trans interleaved_iff_repeats, chunkIdx_eq _ _ _,
    fun _ => hashObjectWith_eq_iff.mpr⟩

-- Object 1 in its first part: the index is 1023, where the reference hash has 767.
theorem hashObject_not_interleaved :
    ¬(Interleaved (BitVec.ofNat NBits fibConstant) 1 0) ∧ partIndex (hashObject 1 0) = 1023 ∧
      interleaved_fibonacci_hash NumBloomParts (Nat.log2 BloomPartSize) 1 0 = 767 := by
  refine ⟨fun h => ?_, by decide, by decide⟩
  rw [interleaved_iff] at h
  exact absurd h.1 (by decide)

-- Different objects have different locations, whatever the odd constant.
theorem hashObjectWith_distinct (fibConstantBit : BitVec NBits)
    (hodd : fibConstantBit.getLsbD 0 = true) (x y : ObjectId) (hne : x ≠ y) :
    ∃ i, hashObjectWith fibConstantBit x i ≠ hashObjectWith fibConstantBit y i := by
  by_contra hsame
  simp only [ne_eq, not_exists, not_not] at hsame
  have hbits := hashObjectWith_eq_iff.mp (funext hsame)
  have hmod : x.toNat * fibConstantBit.toNat % 2 ^ 32 = y.toNat * fibConstantBit.toNat % 2 ^ 32 := by
    refine eq_of_testBit_lt (Nat.mod_lt _ (Nat.two_pow_pos 32)) (Nat.mod_lt _ (Nat.two_pow_pos 32))
      fun j hj => ?_
    have hbit := hbits j hj
    rw [getLsbD_fullHash (by omega), getLsbD_fullHash (by omega)] at hbit
    rw [Nat.testBit_mod_two_pow, Nat.testBit_mod_two_pow, hbit]
  have hconstant : fibConstantBit.toNat % 2 = 1 := by
    rw [← BitVec.testBit_toNat, Nat.testBit_zero] at hodd
    exact of_decide_eq_true hodd
  exact hne (BitVec.eq_of_toNat_eq (mul_mod_two_pow_inj hconstant x.isLt y.isLt hmod))

theorem hashObjectWith_distinct_source :
    ∃ i, hashObjectWith (BitVec.ofNat NBits fibConstant) 0 i ≠
      hashObjectWith (BitVec.ofNat NBits fibConstant) 1 i :=
  hashObjectWith_distinct _ (by decide) 0 1 (by decide)

end Puppetmaster.Hardware
