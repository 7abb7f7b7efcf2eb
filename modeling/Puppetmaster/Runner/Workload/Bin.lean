import Puppetmaster.Library.WordStream
import Puppetmaster.Runner.Workload

namespace Puppetmaster.Runner

open Library Wrapper

-- The writer of generate.c, compiled with MAX_TXN_OBJS = max_txn_objs.
section

variable (max_txn_objs : ℕ)

def writeSlots (slots : Fin MAX_TXN_OBJS → ObjId) : List Byte :=
  ((List.ofFn slots).take max_txn_objs).flatMap writeWord

def writeTxn (t : Txn) : List Byte :=
  writeWord t.id ++ (writeWord t.aux_data ++ (writeWord (BitVec.ofNat 32 t.num_reads) ++
    (writeWord (BitVec.ofNat 32 t.num_writes) ++
      (writeSlots max_txn_objs t.reads ++ writeSlots max_txn_objs t.writes))))

def writeHeader (num_txns : ℕ) : List Byte :=
  writeWord TXN_BIN_MAGIC ++ (writeWord TXN_BIN_VERSION ++ (writeWord (BitVec.ofNat 32 num_txns) ++
    (writeWord (BitVec.ofNat 32 max_txn_objs) ++ writeWord 0)))

def write_bin (wl : Workload) : List Byte :=
  writeHeader max_txn_objs wl.num_txns ++ (List.ofFn wl.txns).flatMap (writeTxn max_txn_objs)

end

-- The reader of workload.c

structure Header where
  magic : BitVec 32
  version : BitVec 32
  num_txns : BitVec 32
  max_objs : BitVec 32
  reserved : BitVec 32

def readHeader (f : List Byte) : Option (Header × List Byte) := do
  let (magic, f) ← readWord f
  let (version, f) ← readWord f
  let (num_txns, f) ← readWord f
  let (max_objs, f) ← readWord f
  let (reserved, f) ← readWord f
  return (⟨magic, version, num_txns, max_objs, reserved⟩, f)

def readTxn (i : ℕ) (f : List Byte) : Except Abort (Txn × List Byte) := do
  let (id, f) ← orFatal s!"Failed to read transaction {i} header" (readWord f)
  let (aux_data, f) ← orFatal s!"Failed to read transaction {i} header" (readWord f)
  let (num_reads, f) ← orFatal s!"Failed to read transaction {i} read/write counts" (readWord f)
  let (num_writes, f) ← orFatal s!"Failed to read transaction {i} read/write counts" (readWord f)
  if h : num_reads.toNat ≤ MAX_TXN_OBJS ∧ num_writes.toNat ≤ MAX_TXN_OBJS then
    let (reads, f) ← orFatal s!"Failed to read transaction {i} object data"
      (readWords MAX_TXN_OBJS f)
    let (writes, f) ← orFatal s!"Failed to read transaction {i} object data"
      (readWords MAX_TXN_OBJS f)
    return ({ id, aux_data, reads, writes
              num_reads := num_reads.toNat
              num_writes := num_writes.toNat
              num_reads_le := h.1
              num_writes_le := h.2 }, f)
  else throw (.fatal s!"Transaction {i} exceeds MAX_TXN_OBJS={MAX_TXN_OBJS}")

-- The transactions from number `i` on.
def readTxns (i : ℕ) : (n : ℕ) → List Byte → Except Abort ((Fin n → Txn) × List Byte)
  | 0, f => .ok (Fin.elim0, f)
  | n + 1, f => do
      let (txn, f) ← readTxn i f
      let (txns, f) ← readTxns (i + 1) n f
      return (Fin.cons txn txns, f)

def checkHeader (h : Header) : Except Abort Unit :=
  if h.magic ≠ TXN_BIN_MAGIC then
    throw (.fatal "Invalid workload file: wrong magic number")
  else if h.version ≠ TXN_BIN_VERSION then
    throw (.fatal "Unsupported workload version")
  else if h.max_objs.toNat > MAX_TXN_OBJS then
    throw (.fatal "Incompatible binary format")
  else .ok ()

def loadTxns (num_txns : ℕ) (h : num_txns < 2 ^ 31) (f : List Byte) : Except Abort Workload :=
  (readTxns 0 num_txns f).map fun (txns, _) => ⟨num_txns, txns, h⟩

def parse_workload_bin (f : List Byte) : Except Abort Workload := do
  let (header, f) ← orFatal "Failed to read workload header" (readHeader f)
  checkHeader header
  if h : mallocOk (workloadSize header.num_txns) then
    loadTxns header.num_txns.toNat ((mallocOk_workloadSize _).mp h) f
  else throw (.fatal "Failed to allocate workload buffer")

theorem readHeader_writeHeader (max_txn_objs num_txns : ℕ) (rest : List Byte) :
    readHeader (writeHeader max_txn_objs num_txns ++ rest) = some
      (⟨TXN_BIN_MAGIC, TXN_BIN_VERSION, BitVec.ofNat 32 num_txns, BitVec.ofNat 32 max_txn_objs, 0⟩,
        rest) := by
  simp [readHeader, writeHeader]

theorem checkHeader_eq_ok {max_txn_objs : ℕ} (h : max_txn_objs ≤ MAX_TXN_OBJS)
    (num_txns reserved : BitVec 32) :
    checkHeader ⟨TXN_BIN_MAGIC, TXN_BIN_VERSION, num_txns, BitVec.ofNat 32 max_txn_objs, reserved⟩ =
      .ok () := by
  have hmax : ¬ (BitVec.ofNat 32 max_txn_objs).toNat > MAX_TXN_OBJS := by
    rw [BitVec.toNat_ofNat]
    exact Nat.not_lt.mpr ((Nat.mod_le _ _).trans h)
  simp only [checkHeader, ne_eq, not_true_eq_false, if_false, hmax]

-- With a header as it is written, a file says what its transactions say.
theorem parse_writeHeader {max_txn_objs : ℕ} (hmax : max_txn_objs ≤ MAX_TXN_OBJS) {num_txns : ℕ}
    (hlt : num_txns < 2 ^ 31) (rest : List Byte) :
    parse_workload_bin (writeHeader max_txn_objs num_txns ++ rest) = loadTxns num_txns hlt rest := by
  have htoNat : (BitVec.ofNat 32 num_txns).toNat = num_txns :=
    Nat.mod_eq_of_lt (hlt.trans (by decide))
  have hmalloc : mallocOk (workloadSize (BitVec.ofNat 32 num_txns)) = true := by
    rw [mallocOk_workloadSize, htoNat]
    exact hlt
  simp only [parse_workload_bin, readHeader_writeHeader, orFatal_some, ok_bind,
    checkHeader_eq_ok hmax, hmalloc, dif_pos, htoNat]

theorem readWords_writeSlots (slots : Fin MAX_TXN_OBJS → ObjId) (rest : List Byte) :
    readWords MAX_TXN_OBJS (writeSlots MAX_TXN_OBJS slots ++ rest) = some (slots, rest) := by
  rw [writeSlots, List.take_of_length_le (List.length_ofFn).le]
  exact readWords_flatMap slots rest

theorem toNat_count {n : ℕ} (h : n ≤ MAX_TXN_OBJS) : (BitVec.ofNat 32 n).toNat = n :=
  Nat.mod_eq_of_lt (h.trans_lt (by decide))

theorem readTxn_writeTxn (i : ℕ) (t : Txn) (rest : List Byte) :
    readTxn i (writeTxn MAX_TXN_OBJS t ++ rest) = .ok (t, rest) := by
  have hcounts : t.num_reads ≤ MAX_TXN_OBJS ∧ t.num_writes ≤ MAX_TXN_OBJS :=
    ⟨t.num_reads_le, t.num_writes_le⟩
  simp only [readTxn, writeTxn, List.append_assoc, readWord_writeWord, readWords_writeSlots,
    orFatal_some, ok_bind, toNat_count t.num_reads_le, toNat_count t.num_writes_le, hcounts]
  rfl

theorem readTxns_writeTxns (i : ℕ) {n : ℕ} (txns : Fin n → Txn) (rest : List Byte) :
    readTxns i n ((List.ofFn txns).flatMap (writeTxn MAX_TXN_OBJS) ++ rest) = .ok (txns, rest) := by
  induction n generalizing i with
  | zero => simp [readTxns, eq_iff_true_of_subsingleton]
  | succ n ih =>
      have htail := ih (i + 1) (Fin.tail txns)
      rw [List.ofFn_succ, List.flatMap_cons, List.append_assoc, readTxns, readTxn_writeTxn, ok_bind]
      simp only [show (fun k : Fin n => txns k.succ) = Fin.tail txns from rfl, htail, ok_bind,
        Fin.cons_self_tail]
      rfl

-- What was written is read back, all slots included.
theorem parse_write_bin (wl : Workload) :
    parse_workload_bin (write_bin MAX_TXN_OBJS wl) = .ok wl := by
  have htxns := readTxns_writeTxns 0 wl.txns []
  rw [List.append_nil] at htxns
  rw [write_bin, parse_writeHeader (Nat.le_refl _) wl.num_txns_lt, loadTxns, htxns]
  rfl

-- A record as the reader takes it: four words and MAX_TXN_OBJS words for each of the arrays.
theorem readTxn_length {i : ℕ} {f rest : List Byte} {t : Txn} (h : readTxn i f = .ok (t, rest)) :
    f.length = 144 + rest.length := by
  simp only [readTxn, bind_eq_ok, orFatal_eq_ok, Prod.exists] at h
  obtain ⟨id, f₁, hid, aux_data, f₂, haux, num_reads, f₃, hreads, num_writes, f₄, hwrites, h⟩ := h
  split at h
  · simp only [bind_eq_ok, orFatal_eq_ok, Prod.exists] at h
    obtain ⟨reads, f₅, hreadSlots, writes, f₆, hwriteSlots, h⟩ := h
    cases h
    have hslots : 4 * MAX_TXN_OBJS = 64 := rfl
    rw [readWord_length hid, readWord_length haux, readWord_length hreads, readWord_length hwrites,
      readWords_length hreadSlots, readWords_length hwriteSlots, hslots]
    omega
  · cases h

theorem readTxns_length {i n : ℕ} {f rest : List Byte} {txns : Fin n → Txn}
    (h : readTxns i n f = .ok (txns, rest)) : f.length = 144 * n + rest.length := by
  induction n generalizing i f rest with
  | zero =>
      cases h
      simp
  | succ n ih =>
      simp only [readTxns, bind_eq_ok, Prod.exists] at h
      obtain ⟨t, f', htxn, txns', rest', htxns, h⟩ := h
      cases h
      rw [readTxn_length htxn, ih htxns]
      omega

theorem writeTxn_length {max_txn_objs : ℕ} (hmax : max_txn_objs ≤ MAX_TXN_OBJS) (t : Txn) :
    (writeTxn max_txn_objs t).length = 16 + 8 * max_txn_objs := by
  have hslots (slots : Fin MAX_TXN_OBJS → ObjId) :
      (writeSlots max_txn_objs slots).length = 4 * max_txn_objs := by
    rw [writeSlots, flatMap_writeWord_length, List.length_take, List.length_ofFn, min_eq_left hmax]
  simp only [writeTxn, List.length_append, writeWord_length, hslots]
  omega

theorem writeTxns_length {max_txn_objs : ℕ} (hmax : max_txn_objs ≤ MAX_TXN_OBJS)
    (txns : List Txn) :
    (txns.flatMap (writeTxn max_txn_objs)).length = txns.length * (16 + 8 * max_txn_objs) := by
  induction txns with
  | nil => simp
  | cons t txns ih =>
      rw [List.flatMap_cons, List.length_append, writeTxn_length hmax, ih, List.length_cons,
        Nat.add_one_mul txns.length]
      exact Nat.add_comm _ _

-- The reader takes MAX_TXN_OBJS slots whatever the header says, so a file that was written with
-- fewer ends before its last transaction.
theorem parse_write_bin_short (wl : Workload) {max_txn_objs : ℕ}
    (hmax : max_txn_objs < MAX_TXN_OBJS) (hsome : 0 < wl.num_txns) :
    ∃ abort, parse_workload_bin (write_bin max_txn_objs wl) = .error abort := by
  cases hparse : parse_workload_bin (write_bin max_txn_objs wl) with
  | error abort => exact ⟨abort, rfl⟩
  | ok wl' =>
      rw [write_bin, parse_writeHeader hmax.le wl.num_txns_lt, loadTxns] at hparse
      cases htxns : readTxns 0 wl.num_txns ((List.ofFn wl.txns).flatMap (writeTxn max_txn_objs)) with
      | error abort =>
          rw [htxns] at hparse
          cases hparse
      | ok result =>
          have hlength := readTxns_length htxns
          rw [writeTxns_length hmax.le, List.length_ofFn] at hlength
          have hslots : max_txn_objs < 16 := hmax
          have hlt : wl.num_txns * (16 + 8 * max_txn_objs) < wl.num_txns * 144 :=
            Nat.mul_lt_mul_of_pos_left (by omega) hsome
          omega

-- Whatever bound a file was written with, its transactions are rejected or are those written.
theorem parse_write_bin_bound (wl : Workload) {max_txn_objs : ℕ}
    (hmax : max_txn_objs ≤ MAX_TXN_OBJS) :
    (∃ abort, parse_workload_bin (write_bin max_txn_objs wl) = .error abort) ∨
      ∃ wl', parse_workload_bin (write_bin max_txn_objs wl) = .ok wl' ∧
        wl'.records = wl.records := by
  rcases hmax.lt_or_eq with hlt | rfl
  · rcases Nat.eq_zero_or_pos wl.num_txns with hzero | hsome
    · obtain ⟨n, txns, hn⟩ := wl
      obtain rfl : n = 0 := hzero
      refine Or.inr ⟨⟨0, Fin.elim0, hn⟩, ?_, ?_⟩
      · rw [write_bin, parse_writeHeader hmax hn]
        rfl
      · simp only [Workload.records, List.ofFn_zero]
    · exact Or.inl (parse_write_bin_short wl hlt hsome)
  · exact Or.inr ⟨wl, parse_write_bin wl, rfl⟩

-- Three transactions with reads and writes.
def threeTxns : Workload where
  num_txns := 3
  txns i := {
    id := BitVec.ofNat 32 (5 + i.val)
    aux_data := BitVec.ofNat 32 0
    num_reads := i.val
    num_writes := 2
    reads := fun j => BitVec.ofNat 32 (10 * i.val + j.val)
    writes := fun j => BitVec.ofNat 32 (100 + j.val)
    num_reads_le := Nat.le_trans (Nat.le_of_lt_succ i.isLt) two_le_max_txn_objs
    num_writes_le := two_le_max_txn_objs }
  num_txns_lt := three_lt_limit

theorem parse_write_bin_bound_threeTxns : 3 ≤ MAX_TXN_OBJS ∧
    ((∃ abort, parse_workload_bin (write_bin 3 threeTxns) = .error abort) ∨
      ∃ wl', parse_workload_bin (write_bin 3 threeTxns) = .ok wl' ∧
        wl'.records = threeTxns.records) :=
  have hmax : 3 ≤ MAX_TXN_OBJS := by decide
  ⟨hmax, parse_write_bin_bound threeTxns hmax⟩

end Puppetmaster.Runner
