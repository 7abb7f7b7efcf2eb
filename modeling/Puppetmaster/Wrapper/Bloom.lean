import Puppetmaster.Library.Bitmap
import Mathlib.Data.List.FinRange

namespace Puppetmaster.Wrapper

open Library

-- The macros of bloom.h under the conditions that the header checks, and with a constant for each
-- hash function.
structure BloomParams where
  BLOOM_TOTAL_BITS : ℕ
  BLOOM_NUM_HASHES : ℕ
  total_pos : 0 < BLOOM_TOTAL_BITS
  hashes_dvd : BLOOM_TOTAL_BITS % BLOOM_NUM_HASHES = 0
  words_dvd : BLOOM_TOTAL_BITS / BLOOM_NUM_HASHES % 64 = 0
  num_hashes_le : BLOOM_NUM_HASHES ≤ 8

namespace BloomParams

def default : BloomParams where
  BLOOM_TOTAL_BITS := 65536
  BLOOM_NUM_HASHES := 4
  total_pos := by decide
  hashes_dvd := by decide
  words_dvd := by decide
  num_hashes_le := by decide

variable (c : BloomParams)

def partBits : ℕ := c.BLOOM_TOTAL_BITS / c.BLOOM_NUM_HASHES

def words : ℕ := c.BLOOM_TOTAL_BITS / 64

theorem parts_eq : c.BLOOM_NUM_HASHES * c.partBits = c.BLOOM_TOTAL_BITS :=
  Nat.mul_div_cancel' (Nat.dvd_of_mod_eq_zero c.hashes_dvd)

theorem partBits_pos : 0 < c.partBits := by
  have hparts := c.parts_eq
  have htotal := c.total_pos
  refine Nat.pos_of_ne_zero fun h => ?_
  rw [h, Nat.mul_zero] at hparts
  omega

-- No bit of the filter is without a word.
theorem words_eq : c.words * 64 = c.BLOOM_TOTAL_BITS := by
  have hdvd : 64 ∣ c.BLOOM_TOTAL_BITS := by
    rw [← c.parts_eq]
    exact Nat.dvd_mul_left_of_dvd (Nat.dvd_of_mod_eq_zero c.words_dvd) _
  exact Nat.div_mul_cancel hdvd

theorem partBits_le : c.partBits ≤ c.words * 64 := by
  rw [c.words_eq]
  exact Nat.div_le_self _ _

end BloomParams

def hash_constants : Vector (BitVec 64) 8 :=
  #v[0x9e3779b97f4a7c15, 0xc6a4a7935bd1e995, 0x2545f4914f6cdd1d, 0x21c64e4276c9f809,
    0x5851f42d4c957f2d, 0xda942042e4dd58b5, 0x14057b7ef767814f, 0x2f8b15c6c8b3a3c5]

variable (c : BloomParams)

-- The 18 bits that the shift leaves fit in the uint32_t.
def bloom_hash (x : BitVec 64) (idx : Fin c.BLOOM_NUM_HASHES) : ℕ :=
  let h := x * hash_constants.get (idx.castLE c.num_hashes_le)
  (h >>> 46).toNat % c.partBits

theorem bloom_hash_lt (x : BitVec 64) (idx : Fin c.BLOOM_NUM_HASHES) : bloom_hash c x idx < c.partBits :=
  Nat.mod_lt _ c.partBits_pos

-- Where a hash function marks an object.
def bitpos (x : BitVec 64) (idx : Fin c.BLOOM_NUM_HASHES) : Fin (c.words * 64) :=
  ⟨bloom_hash c x idx, (bloom_hash_lt c x idx).trans_le c.partBits_le⟩

def bloom_init : Bitmap c.words := Bitmap.empty c.words

def bloom_insert (bf : Bitmap c.words) (objid : BitVec 64) : Bitmap c.words :=
  (List.finRange c.BLOOM_NUM_HASHES).foldl (fun bf i => bf.set (bitpos c objid i)) bf

def bloom_query (bf : Bitmap c.words) (objid : BitVec 64) : Bool :=
  (List.finRange c.BLOOM_NUM_HASHES).all fun i => bf.test (bitpos c objid i)

-- The filter after some calls of bloom_insert.
def inserted (ids : List (BitVec 64)) : Bitmap c.words := ids.foldl (bloom_insert c) (bloom_init c)

variable {c} {ids : List (BitVec 64)} {x : BitVec 64}

theorem test_bloom_insert (bf : Bitmap c.words) (objid : BitVec 64) (p : Fin (c.words * 64)) :
    (bloom_insert c bf objid).test p = true ↔ bf.test p = true ∨ ∃ i, bitpos c objid i = p := by
  have hfoldl (is : List (Fin c.BLOOM_NUM_HASHES)) (bf : Bitmap c.words) :
      (is.foldl (fun bf i => bf.set (bitpos c objid i)) bf).test p = true ↔
        bf.test p = true ∨ ∃ i ∈ is, bitpos c objid i = p := by
    induction is generalizing bf with
    | nil => simp
    | cons i is ih =>
        rw [List.foldl_cons, ih, Bitmap.test_set, Bool.or_eq_true, decide_eq_true_eq]
        simp only [List.mem_cons, exists_eq_or_imp]
        tauto
  simp only [bloom_insert, hfoldl, List.mem_finRange, true_and]

theorem test_inserted (p : Fin (c.words * 64)) :
    (inserted c ids).test p = true ↔ ∃ y ∈ ids, ∃ j, bitpos c y j = p := by
  have hfoldl (bf : Bitmap c.words) : (ids.foldl (bloom_insert c) bf).test p = true ↔
      bf.test p = true ∨ ∃ y ∈ ids, ∃ j, bitpos c y j = p := by
    induction ids generalizing bf with
    | nil => simp
    | cons y ids ih =>
        rw [List.foldl_cons, ih, test_bloom_insert]
        simp only [List.mem_cons, exists_eq_or_imp, or_assoc]
  rw [inserted, hfoldl, bloom_init, Bitmap.test_empty]
  simp

-- The hash functions mark their objects in one partition, the first.
theorem test_inserted_lt {p : Fin (c.words * 64)} (h : (inserted c ids).test p = true) :
    p.val < c.partBits := by
  obtain ⟨y, -, j, rfl⟩ := test_inserted p |>.mp h
  exact bloom_hash_lt c y j

-- A query finds each position that any of the hash functions marked.
theorem bloom_query_inserted : bloom_query c (inserted c ids) x = true ↔
    ∀ i, ∃ y ∈ ids, ∃ j, bloom_hash c y j = bloom_hash c x i := by
  simp only [bloom_query, List.all_eq_true, List.mem_finRange, true_imp_iff, test_inserted, bitpos,
    Fin.mk.injEq]

-- A position that no hash function marked.
def Unmarked (c : BloomParams) (ids : List (BitVec 64)) (x : BitVec 64) (i : Fin c.BLOOM_NUM_HASHES) : Prop :=
  ∀ y ∈ ids, ∀ j, bloom_hash c y j ≠ bloom_hash c x i

-- A position that was marked, but not by the hash function that looks for it.
def MarkedByOthers (c : BloomParams) (ids : List (BitVec 64)) (x : BitVec 64)
    (i : Fin c.BLOOM_NUM_HASHES) : Prop :=
  (∃ y ∈ ids, ∃ j, j ≠ i ∧ bloom_hash c y j = bloom_hash c x i) ∧
    ∀ y ∈ ids, bloom_hash c y i ≠ bloom_hash c x i

theorem markedByOthers_or (i : Fin c.BLOOM_NUM_HASHES) (h : ¬ Unmarked c ids x i) :
    MarkedByOthers c ids x i ∨ ∃ y ∈ ids, bloom_hash c y i = bloom_hash c x i := by
  by_cases hown : ∃ y ∈ ids, bloom_hash c y i = bloom_hash c x i
  · exact Or.inr hown
  · left
    unfold Unmarked at h
    push Not at h hown
    obtain ⟨y, hy, j, hj⟩ := h
    refine ⟨⟨y, hy, j, ?_, hj⟩, hown⟩
    rintro rfl
    exact hown y hy hj

-- A query is as in a partitioned filter, unless all positions were marked and one of them only
-- by other hash functions.
theorem bloom_query_partitioned_iff (c : BloomParams) (ids : List (BitVec 64)) (x : BitVec 64) :
    (bloom_query c (inserted c ids) x = true ↔ ∀ i, ∃ y ∈ ids, bloom_hash c y i = bloom_hash c x i) ↔
      ((∃ i, MarkedByOthers c ids x i) → ∃ i, Unmarked c ids x i) := by
  have hquery : bloom_query c (inserted c ids) x = true ↔ ∀ i, ¬ Unmarked c ids x i := by
    rw [bloom_query_inserted]
    simp only [Unmarked, not_forall, not_not, exists_prop]
  rw [hquery]
  constructor
  · rintro hexact ⟨i, -, hother⟩
    by_contra hmarked
    obtain ⟨y, hy, hown⟩ := hexact.mp (not_exists.mp hmarked) i
    exact hother y hy hown
  · intro h
    constructor
    · intro hmarked i
      refine (markedByOthers_or i (hmarked i)).resolve_left fun hothers => ?_
      obtain ⟨k, hk⟩ := h ⟨i, hothers⟩
      exact hmarked k hk
    · intro hown i hunmarked
      obtain ⟨y, hy, hi⟩ := hown i
      exact hunmarked y hy i hi

-- The first hash function marks the position 0 for 86617, where all of them look for 0.
theorem bloom_query_false_positive :
    ¬ (bloom_query .default (inserted .default [86617]) 0 = true ↔
      ∀ i, ∃ y ∈ [86617], bloom_hash .default y i = bloom_hash .default 0 i) := by
  have hzero : ∀ i, bloom_hash .default 0 i = 0 := by decide +kernel
  have hmarked : bloom_hash .default 86617 ⟨0, by decide⟩ = 0 := by decide +kernel
  have hother : bloom_hash .default 86617 ⟨1, by decide⟩ ≠ 0 := by decide +kernel
  intro h
  have hquery : bloom_query .default (inserted .default [86617]) 0 = true :=
    bloom_query_inserted.mpr fun i => ⟨86617, List.mem_singleton_self _, _, hmarked.trans (hzero i).symm⟩
  obtain ⟨y, hy, hi⟩ := h.mp hquery ⟨1, by decide⟩
  obtain rfl := List.mem_singleton.mp hy
  exact hother (hi.trans (hzero _))

end Puppetmaster.Wrapper
