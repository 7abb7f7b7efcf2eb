import Puppetmaster.Runner.Stdlib
import Puppetmaster.Wrapper.Txn
import Mathlib.Algebra.Order.Ring.Nat

namespace Puppetmaster.Wrapper.Txn

def readList (t : Txn) : List ObjId := List.ofFn t.read

def writeList (t : Txn) : List ObjId := List.ofFn t.write

-- A transaction without objects, in memory whose array slots hold what they held.
def restart (t : Txn) (id : TxnId) (aux_data : AuxData) : Txn :=
  { t with
    id
    aux_data
    num_reads := 0
    num_writes := 0
    num_reads_le := Nat.zero_le _
    num_writes_le := Nat.zero_le _ }

-- reads[num_reads++] = obj
def pushRead (t : Txn) (obj : ObjId) (h : t.num_reads < MAX_TXN_OBJS) : Txn :=
  { t with
    num_reads := t.num_reads + 1
    reads := Function.update t.reads ⟨t.num_reads, h⟩ obj
    num_reads_le := h }

-- writes[num_writes++] = obj
def pushWrite (t : Txn) (obj : ObjId) (h : t.num_writes < MAX_TXN_OBJS) : Txn :=
  { t with
    num_writes := t.num_writes + 1
    writes := Function.update t.writes ⟨t.num_writes, h⟩ obj
    num_writes_le := h }

-- Pushing onto an array keeps the entries counted so far.
theorem ofFn_update {n : ℕ} (xs : Fin MAX_TXN_OBJS → ObjId) (obj : ObjId)
    (h : n < MAX_TXN_OBJS) :
    List.ofFn (fun i : Fin (n + 1) =>
        Function.update xs ⟨n, h⟩ obj (i.castLE (Nat.succ_le_of_lt h))) =
      List.ofFn (fun i : Fin n => xs (i.castLE h.le)) ++ [obj] := by
  rw [List.ofFn_succ', List.concat_eq_append]
  congr 1
  · refine congrArg List.ofFn (funext fun i => Function.update_of_ne ?_ _ _)
    exact Fin.ne_of_val_ne (Nat.ne_of_lt i.isLt)
  · exact congrArg (fun x => [x]) (Function.update_self _ _ _)

@[simp] theorem readList_pushRead (t : Txn) (obj : ObjId) (h : t.num_reads < MAX_TXN_OBJS) :
    (t.pushRead obj h).readList = t.readList ++ [obj] := ofFn_update t.reads obj h

@[simp] theorem writeList_pushRead (t : Txn) (obj : ObjId) (h : t.num_reads < MAX_TXN_OBJS) :
    (t.pushRead obj h).writeList = t.writeList := rfl

@[simp] theorem writeList_pushWrite (t : Txn) (obj : ObjId) (h : t.num_writes < MAX_TXN_OBJS) :
    (t.pushWrite obj h).writeList = t.writeList ++ [obj] := ofFn_update t.writes obj h

@[simp] theorem readList_pushWrite (t : Txn) (obj : ObjId) (h : t.num_writes < MAX_TXN_OBJS) :
    (t.pushWrite obj h).readList = t.readList := rfl

@[simp] theorem readList_length (t : Txn) : t.readList.length = t.num_reads := List.length_ofFn

@[simp] theorem writeList_length (t : Txn) : t.writeList.length = t.num_writes := List.length_ofFn

end Puppetmaster.Wrapper.Txn

namespace Puppetmaster.Runner

open Wrapper

-- workload.h

def TXN_BIN_MAGIC : BitVec 32 := 0x54584E53

def TXN_BIN_VERSION : BitVec 32 := 1

-- The count is an int, so there are fewer than 2^31 transactions.
structure Workload where
  num_txns : ℕ
  txns : Fin num_txns → Txn
  num_txns_lt : num_txns < 2 ^ 31

theorem three_lt_limit : 3 < 2 ^ 31 := by decide

-- What a transaction says, without the array entries beyond its counts.
structure Record where
  id : TxnId
  aux_data : AuxData
  reads : List ObjId
  writes : List ObjId

namespace Record

def objs (r : Record) (is_write : Bool) : List ObjId := if is_write then r.writes else r.reads

def append (r : Record) (is_write : Bool) (objids : List ObjId) : Record :=
  if is_write then { r with writes := r.writes ++ objids }
  else { r with reads := r.reads ++ objids }

theorem append_append (r : Record) (is_write : Bool) (xs ys : List ObjId) :
    (r.append is_write xs).append is_write ys = r.append is_write (xs ++ ys) := by
  cases is_write <;> simp [append]

theorem objs_append (r : Record) (is_write : Bool) (xs : List ObjId) :
    (r.append is_write xs).objs is_write = r.objs is_write ++ xs := by
  cases is_write <;> simp [append, objs]

theorem mem_append {r : Record} {is_write : Bool} {xs : List ObjId} {obj : ObjId} :
    obj ∈ (r.append is_write xs).reads ∨ obj ∈ (r.append is_write xs).writes ↔
      (obj ∈ r.reads ∨ obj ∈ r.writes) ∨ obj ∈ xs := by
  cases is_write with
  | true => simp [append, or_assoc]
  | false => simp [append, or_right_comm]

end Record

def record (t : Txn) : Record where
  id := t.id
  aux_data := t.aux_data
  reads := t.readList
  writes := t.writeList

@[simp] theorem record_restart (t : Txn) (id : TxnId) (aux_data : AuxData) :
    record (t.restart id aux_data) = ⟨id, aux_data, [], []⟩ := rfl

@[simp] theorem record_pushRead (t : Txn) (obj : ObjId) (h : t.num_reads < MAX_TXN_OBJS) :
    record (t.pushRead obj h) = { record t with reads := t.readList ++ [obj] } := by
  rw [record, Txn.readList_pushRead, Txn.writeList_pushRead]
  rfl

@[simp] theorem record_pushWrite (t : Txn) (obj : ObjId) (h : t.num_writes < MAX_TXN_OBJS) :
    record (t.pushWrite obj h) = { record t with writes := t.writeList ++ [obj] } := by
  rw [record, Txn.writeList_pushWrite, Txn.readList_pushWrite]
  rfl

def Workload.records (wl : Workload) : List Record := List.ofFn fun i => record (wl.txns i)

-- Put an object into one of the arrays; `full` is what happens where the array is full.
def pushOr (txn : Txn) (is_write : Bool) (obj : ObjId) (full : Abort) : Except Abort Txn :=
  if is_write then
    if h : txn.num_writes < MAX_TXN_OBJS then .ok (txn.pushWrite obj h) else .error full
  else
    if h : txn.num_reads < MAX_TXN_OBJS then .ok (txn.pushRead obj h) else .error full

theorem record_of_pushOr {txn txn' : Txn} {is_write : Bool} {obj : ObjId} {full : Abort}
    (h : pushOr txn is_write obj full = .ok txn') :
    record txn' = (record txn).append is_write [obj] := by
  unfold pushOr at h
  cases is_write with
  | true =>
      simp only [if_true] at h
      split at h
      · cases h
        exact record_pushWrite txn obj _
      · cases h
  | false =>
      simp only [Bool.false_eq_true, if_false] at h
      split at h
      · cases h
        exact record_pushRead txn obj _
      · cases h

theorem pushOr_total {txn : Txn} {is_write : Bool}
    (hroom : ((record txn).objs is_write).length < MAX_TXN_OBJS) (obj : ObjId) (full : Abort) :
    ∃ txn', pushOr txn is_write obj full = .ok txn' := by
  cases is_write with
  | true =>
      have hlt : txn.num_writes < MAX_TXN_OBJS := by simpa [Record.objs, record] using hroom
      exact ⟨txn.pushWrite obj hlt, by simp [pushOr, hlt]⟩
  | false =>
      have hlt : txn.num_reads < MAX_TXN_OBJS := by simpa [Record.objs, record] using hroom
      exact ⟨txn.pushRead obj hlt, by simp [pushOr, hlt]⟩

-- sizeof(workload_t) + sizeof(txn_t) * num_txns, where num_txns is an int
def workloadSize (num_txns : BitVec 32) : BitVec 64 := 4 + 184 * num_txns.signExtend 64

-- There is memory for a workload iff the number of its transactions is not negative.
theorem mallocOk_workloadSize (num_txns : BitVec 32) :
    mallocOk (workloadSize num_txns) = true ↔ num_txns.toNat < 2 ^ 31 := by
  have hsize : mallocOk (workloadSize num_txns) = true ↔
      (4 + 184 * (num_txns.signExtend 64).toNat % 2 ^ 64) % 2 ^ 64 < 2 ^ 63 := by
    simp [mallocOk, workloadSize, BitVec.msb_eq_decide]
  rw [hsize, BitVec.toNat_signExtend, BitVec.toNat_setWidth,
    Nat.mod_eq_of_lt (num_txns.isLt.trans (by decide))]
  clear hsize
  by_cases hneg : num_txns.msb
  · have hle := BitVec.msb_eq_true_iff_two_mul_ge.mp hneg
    obtain ⟨k, hk⟩ := Nat.exists_eq_add_of_le num_txns.isLt.le
    have hwrap : 184 * (num_txns.toNat + (2 ^ 64 - 2 ^ 32)) % 2 ^ 64 = 2 ^ 64 - 184 * k := by
      omega
    have hsum : (4 + (2 ^ 64 - 184 * k)) % 2 ^ 64 = 4 + (2 ^ 64 - 184 * k) :=
      Nat.mod_eq_of_lt (by omega)
    rw [if_pos hneg, hwrap, hsum]
    omega
  · have hlt := BitVec.msb_eq_false_iff_two_mul_lt.mp (Bool.eq_false_iff.mpr hneg)
    have hmod : 184 * (num_txns.toNat + 0) % 2 ^ 64 = 184 * num_txns.toNat := by omega
    have hsum : (4 + 184 * num_txns.toNat) % 2 ^ 64 = 4 + 184 * num_txns.toNat :=
      Nat.mod_eq_of_lt (by omega)
    rw [if_neg hneg, hmod, hsum]
    omega

end Puppetmaster.Runner
