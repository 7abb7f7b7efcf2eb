import Puppetmaster.Model.Workload
import Mathlib.Algebra.Group.Int.Defs

namespace Puppetmaster.Model

open Library

-- Functions are equal when they are the same object.
structure HashFn where
  object : ℕ
  call : ℤ → ℕ

def HashFn.eq (f1 f2 : HashFn) : Bool := f1.object == f2.object

structure BloomFilter where
  bits : List Bool
  hash_fns : List HashFn

namespace BloomFilter

def setBit (bits : List Bool) (i : ℕ) : Except Exn (List Bool) :=
  if i < bits.length then .ok (bits.set i true) else .error .IndexError

def add (self : BloomFilter) (elem : ℤ) : Except Exn BloomFilter := do
  let bits ← self.hash_fns.foldlM (fun bits fn => setBit bits (fn.call elem)) self.bits
  return { self with bits }

-- __and__ and __or__
def combine (op : Bool → Bool → Bool) (self other : BloomFilter) : Except Exn BloomFilter :=
  if (self.hash_fns.zip other.hash_fns).all fun fs => fs.1.eq fs.2 then
    if self.bits.length = other.bits.length then
      .ok { bits := self.bits.zipWith op other.bits, hash_fns := self.hash_fns }
    else .error (.AssertionError "")
  else .error (.AssertionError "")

instance : MutableSet BloomFilter where
  add := add
  and := combine and
  or := combine or
  bool self := self.bits.any id

end BloomFilter

structure ParallelBloomFilter where
  parts : List BloomFilter

namespace ParallelBloomFilter

def add (self : ParallelBloomFilter) (elem : ℤ) : Except Exn ParallelBloomFilter := do
  let parts ← self.parts.mapM fun part => part.add elem
  return { parts }

-- __and__ and __or__
def combine (op : BloomFilter → BloomFilter → Except Exn BloomFilter) (self other : ParallelBloomFilter) :
    Except Exn ParallelBloomFilter :=
  if self.parts.length = other.parts.length then do
    let parts ← (self.parts.zip other.parts).mapM fun ps => op ps.1 ps.2
    return { parts }
  else .error (.AssertionError "")

instance : MutableSet ParallelBloomFilter where
  add := add
  and := combine PySet.and
  or := combine PySet.or
  bool self := self.parts.all PySet.bool

end ParallelBloomFilter

-- The multiplier is drawn at random.
def make_hash_function (object : ℕ) (mult : ℤ) (buckets : ℕ) : HashFn where
  object := object
  call x := (x * mult / 2 ^ 35 % buckets).toNat

theorem make_hash_function_lt (object : ℕ) (mult : ℤ) {buckets : ℕ} (h : 0 < buckets) (x : ℤ) :
    (make_hash_function object mult buckets).call x < buckets := by
  have hlt : x * mult / 2 ^ 35 % buckets < buckets := Int.emod_lt_of_pos _ (by omega)
  show (x * mult / 2 ^ 35 % buckets).toNat < buckets
  omega

-- New filters, for hash functions that were made before. A bitarray is new with zeros.
def make_bloom_filter_family (len_signature : ℕ) (hash_fns : List HashFn) : BloomFilter :=
  { bits := List.replicate len_signature false, hash_fns }

def make_parallel_bloom_filter_family (len_signature num_partitions : ℕ) (hash_fn : ℕ → HashFn) :
    Except Exn ParallelBloomFilter :=
  if num_partitions = 0 then .error .ZeroDivisionError
  else if len_signature % num_partitions = 0 then
    .ok { parts := (List.range num_partitions).map fun i =>
            make_bloom_filter_family (len_signature / num_partitions) [hash_fn i] }
  else .error (.AssertionError "")

-- A part of a partitioned filter in which the objects are marked.
structure Part (len_per_part : ℕ) (objs : Set ℤ) (fn : HashFn) (part : BloomFilter) : Prop where
  hash_fns : part.hash_fns = [fn]
  length : part.bits.length = len_per_part
  marked : ∀ obj ∈ objs, part.bits[fn.call obj]? = some true

variable {len_per_part : ℕ} {fns : List HashFn} {X Y Z : Set ℤ}

namespace Part

variable {fn : HashFn} {p q : BloomFilter}

theorem empty (len_per_part : ℕ) (fn : HashFn) :
    Part len_per_part ∅ fn (make_bloom_filter_family len_per_part [fn]) where
  hash_fns := rfl
  length := List.length_replicate
  marked _ h := absurd h (Set.notMem_empty _)

theorem lt (hp : Part len_per_part X fn p) : ∀ obj ∈ X, fn.call obj < len_per_part := by
  intro obj hobj
  obtain ⟨hlt, -⟩ := List.getElem?_eq_some_iff.mp (hp.marked obj hobj)
  exact hp.length ▸ hlt

theorem combine {op : Bool → Bool → Bool} (hp : Part len_per_part X fn p) (hq : Part len_per_part Y fn q)
    (hop : ∀ obj ∈ Z, ∀ b c, (obj ∈ X → b = true) → (obj ∈ Y → c = true) → op b c = true)
    (hZ : ∀ obj ∈ Z, obj ∈ X ∨ obj ∈ Y) :
    ∃ r, p.combine op q = .ok r ∧ Part len_per_part Z fn r := by
  refine ⟨⟨p.bits.zipWith op q.bits, p.hash_fns⟩, ?_, ⟨hp.hash_fns, ?_, fun obj hobj => ?_⟩⟩
  · have hsame : (p.hash_fns.zip q.hash_fns).all (fun fs => fs.1.eq fs.2) = true := by
      simp [hp.hash_fns, hq.hash_fns, HashFn.eq]
    rw [BloomFilter.combine, if_pos hsame, if_pos (hp.length.trans hq.length.symm)]
  · simp [hp.length, hq.length]
  · have hlt : fn.call obj < len_per_part := (hZ obj hobj).elim (hp.lt obj) (hq.lt obj)
    have hplen : fn.call obj < p.bits.length := hp.length ▸ hlt
    have hqlen : fn.call obj < q.bits.length := hq.length ▸ hlt
    rw [List.getElem?_zipWith, List.getElem?_eq_getElem hplen, List.getElem?_eq_getElem hqlen]
    refine congrArg some (hop obj hobj _ _ (fun hX => ?_) fun hY => ?_)
    · exact (List.getElem_eq_iff hplen).mpr (hp.marked obj hX)
    · exact (List.getElem_eq_iff hqlen).mpr (hq.marked obj hY)

theorem and (hp : Part len_per_part X fn p) (hq : Part len_per_part Y fn q) :
    ∃ r, PySet.and p q = .ok r ∧ Part len_per_part (X ∩ Y) fn r := by
  refine hp.combine hq (fun obj hobj b c hb hc => ?_) fun obj hobj => Or.inl hobj.1
  rw [hb hobj.1, hc hobj.2]
  rfl

theorem or (hp : Part len_per_part X fn p) (hq : Part len_per_part Y fn q) :
    ∃ r, PySet.or p q = .ok r ∧ Part len_per_part (X ∪ Y) fn r := by
  refine hp.combine hq (fun obj hobj b c hb hc => ?_) fun obj hobj => hobj
  rcases hobj with hX | hY
  · rw [hb hX]
    rfl
  · rw [hc hY]
    exact Bool.or_true b

theorem add (hp : Part len_per_part X fn p) {elem : ℤ} (helem : fn.call elem < len_per_part) :
    ∃ r, p.add elem = .ok r ∧ Part len_per_part (insert elem X) fn r := by
  have hlt : fn.call elem < p.bits.length := hp.length ▸ helem
  refine ⟨⟨p.bits.set (fn.call elem) true, p.hash_fns⟩, ?_, ⟨hp.hash_fns, ?_, ?_⟩⟩
  · rw [BloomFilter.add, hp.hash_fns, List.foldlM_cons, BloomFilter.setBit, if_pos hlt]
    rfl
  · rw [List.length_set, hp.length]
  · rintro obj (rfl | hobj)
    · exact List.getElem?_set_self hlt
    · rw [List.getElem?_set]
      split_ifs
      · rfl
      · exact hp.marked obj hobj

theorem bool (hp : Part len_per_part X fn p) (hX : X.Nonempty) : PySet.bool p = true := by
  obtain ⟨obj, hobj⟩ := hX
  exact List.any_eq_true.mpr ⟨true, List.mem_of_getElem? (hp.marked obj hobj), rfl⟩

end Part

namespace ParallelBloomFilter

-- The objects are marked in each part, by the hash function of the part.
def Marks (len_per_part : ℕ) (fns : List HashFn) (filter : ParallelBloomFilter) (objs : Set ℤ) : Prop :=
  List.Forall₂ (Part len_per_part objs) fns filter.parts

variable {F G : ParallelBloomFilter}

theorem Marks.length (hF : Marks len_per_part fns F X) (hG : Marks len_per_part fns G Y) :
    F.parts.length = G.parts.length :=
  (List.Forall₂.length_eq hF).symm.trans (List.Forall₂.length_eq hG)

-- What is done for each two parts is done for the filters.
theorem Marks.combine {op : BloomFilter → BloomFilter → Except Exn BloomFilter}
    (hF : Marks len_per_part fns F X) (hG : Marks len_per_part fns G Y)
    (hop : ∀ fn p q, Part len_per_part X fn p → Part len_per_part Y fn q →
      ∃ r, op p q = .ok r ∧ Part len_per_part Z fn r) :
    ∃ H, ParallelBloomFilter.combine op F G = .ok H ∧ Marks len_per_part fns H Z := by
  obtain ⟨parts, hparts, hmarks⟩ := mapM_zip_ok (f := fun ps => op ps.1 ps.2) hF hG hop
  refine ⟨⟨parts⟩, ?_, hmarks⟩
  rw [ParallelBloomFilter.combine, if_pos (hF.length hG), hparts]
  rfl

theorem Marks.and (hF : Marks len_per_part fns F X) (hG : Marks len_per_part fns G Y) :
    ∃ H, PySet.and F G = .ok H ∧ Marks len_per_part fns H (X ∩ Y) :=
  hF.combine hG fun _ _ _ hp hq => hp.and hq

theorem Marks.or (hF : Marks len_per_part fns F X) (hG : Marks len_per_part fns G Y) :
    ∃ H, PySet.or F G = .ok H ∧ Marks len_per_part fns H (X ∪ Y) :=
  hF.combine hG fun _ _ _ hp hq => hp.or hq

theorem Marks.bool (hF : Marks len_per_part fns F X) (hX : X.Nonempty) : PySet.bool F = true := by
  obtain ⟨parts⟩ := F
  show parts.all PySet.bool = true
  replace hF : List.Forall₂ (Part len_per_part X) fns parts := hF
  induction hF with
  | nil => rfl
  | cons hp _ ih => rw [List.all_cons, hp.bool hX, ih, Bool.true_and]

theorem Marks.add (hF : Marks len_per_part fns F X) {elem : ℤ}
    (helem : ∀ fn ∈ fns, fn.call elem < len_per_part) :
    ∃ G, F.add elem = .ok G ∧ Marks len_per_part fns G (insert elem X) := by
  obtain ⟨parts, hparts, hmarks⟩ := mapM_ok (f := fun part => part.add elem)
    (R := Part len_per_part (insert elem X)) hF fun fn hfn p hp => hp.add (helem fn hfn)
  refine ⟨⟨parts⟩, ?_, hmarks⟩
  rw [ParallelBloomFilter.add, hparts]
  rfl

theorem Marks.foldlM_add (hF : Marks len_per_part fns F X) (elems : List ℤ)
    (hfns : ∀ fn ∈ fns, ∀ elem, fn.call elem < len_per_part) :
    ∃ G, elems.foldlM MutableSet.add F = .ok G ∧ Marks len_per_part fns G (X ∪ {obj | obj ∈ elems}) := by
  induction elems generalizing F X with
  | nil => exact ⟨F, rfl, by simpa using hF⟩
  | cons elem elems ih =>
      obtain ⟨G, hG, hmarks⟩ := hF.add fun fn hfn => hfns fn hfn elem
      obtain ⟨H, hH, hmarks⟩ := ih hmarks
      refine ⟨H, ?_, ?_⟩
      · have hadd : MutableSet.add F elem = .ok G := hG
        rw [List.foldlM_cons, hadd, ok_bind, hH]
      · have hobjs : insert elem X ∪ {obj | obj ∈ elems} = X ∪ {obj | obj ∈ elem :: elems} := by
          ext obj
          simp only [Set.mem_union, Set.mem_insert_iff, Set.mem_ofPred_eq, List.mem_cons]
          tauto
        exact hobjs ▸ hmarks

def marks (len_per_part : ℕ) (fns : List HashFn) : Abstraction ParallelBloomFilter where
  Rep := Marks len_per_part fns
  and_ok := Marks.and
  or_ok := Marks.or
  bool_ok := Marks.bool

end ParallelBloomFilter

-- The filters of a family have nothing marked in them.
theorem make_parallel_bloom_filter_family_eq {num_partitions : ℕ} (hparts : 1 ≤ num_partitions)
    (len_per_part : ℕ) (hash_fn : ℕ → HashFn) :
    ∃ family, make_parallel_bloom_filter_family (len_per_part * num_partitions) num_partitions hash_fn =
        .ok family ∧
      family.Marks len_per_part ((List.range num_partitions).map hash_fn) ∅ := by
  refine ⟨⟨(List.range num_partitions).map fun i => make_bloom_filter_family len_per_part [hash_fn i]⟩, ?_, ?_⟩
  · rw [make_parallel_bloom_filter_family, if_neg (by omega), if_pos (Nat.mul_mod_left _ _),
      Nat.mul_div_cancel _ hparts]
  · refine List.forall₂_map_left_iff.mpr (List.forall₂_map_right_iff.mpr ?_)
    exact List.forall₂_same.mpr fun i _ => Part.empty len_per_part (hash_fn i)

end Puppetmaster.Model
