import Puppetmaster.Library.Layout
import Puppetmaster.Runner.Stdlib
import Puppetmaster.Wrapper.Scheduler
import Mathlib.Algebra.Order.Ring.Nat

namespace Puppetmaster.Runner

open Library Wrapper

-- pmlog.h; an enum may hold what is none of its kinds.
structure PmlogEvt where
  tsc : BitVec 64
  txn_id : TxnId
  kind : BitVec 32
  aux_data : BitVec 64
deriving DecidableEq

def kindValue : PmlogKind → BitVec 32
  | .SUBMIT => 0
  | .SCHED_READY => 1
  | .WORK_RECV => 2
  | .DONE => 3
  | .CLEANUP => 4

namespace PmlogEvt

def fields : BitVec 64 × BitVec 32 × BitVec 32 × BitVec 64 ≃ PmlogEvt where
  toFun x := ⟨x.1, x.2.1, x.2.2.1, x.2.2.2⟩
  invFun e := (e.tsc, e.txn_id, e.kind, e.aux_data)
  left_inv _ := rfl
  right_inv _ := rfl

-- The struct in memory, which has no gaps.
def layout : Layout PmlogEvt :=
  (Layout.doubleWord.pair (Layout.word.pair (Layout.word.pair Layout.doubleWord))).map fields

end PmlogEvt

def compare_events (ea eb : PmlogEvt) : ℤ :=
  if ea.tsc < eb.tsc then -1
  else if ea.tsc > eb.tsc then 1
  else 0

-- The file that pmlog_write and hwlog2bin write.
def logHeader (num_events : ℕ) (base_tsc cpu_freq : BitVec 64) : List Byte :=
  Layout.word.write (BitVec.ofNat 32 num_events) ++
    (Layout.doubleWord.write base_tsc ++ Layout.doubleWord.write cpu_freq)

def logFile (base_tsc cpu_freq : BitVec 64) (evts : List PmlogEvt) : List Byte :=
  logHeader evts.length base_tsc cpu_freq ++ PmlogEvt.layout.writeAll evts

-- The static variables of pmlog.c that the log is made of. The count is an int; beyond the
-- events that are counted the memory of the buffer holds what it held.
structure Pmlog where
  max_num_events : ℕ
  num_events : ℕ
  pmlog_evt_buf : ℕ → PmlogEvt
  base_tsc : BitVec 64
  cpu_freq : BitVec 64
  num_events_lt : num_events < 2 ^ 31

namespace Pmlog

def events (s : Pmlog) : List PmlogEvt := (List.range s.num_events).map s.pmlog_evt_buf

-- The memory of the buffer when its first places are overwritten.
def overwrite (memory : ℕ → PmlogEvt) (evts : List PmlogEvt) (i : ℕ) : PmlogEvt :=
  evts.getD i (memory i)

-- The buffer is memory as malloc gives it.
def pmlog_init (s : Pmlog) (memory : ℕ → PmlogEvt) (max_num_events : ℕ) : Except Abort Pmlog :=
  if 0 < max_num_events then
    .ok { s with
      max_num_events
      num_events := 0
      pmlog_evt_buf := memory
      num_events_lt := by decide }
  else .error (.fatal "Assertion failed")

def pmlog_write (s : Pmlog) : List Byte × Pmlog :=
  let evts := qsort compare_events s.events
  (logFile s.base_tsc s.cpu_freq evts,
    { s with pmlog_evt_buf := overwrite s.pmlog_evt_buf evts })

-- What is returned and handed out is in the state. The buffer is made larger where it has too
-- few places. A negative count asks fread for more than there is memory.
def pmlog_read (s : Pmlog) (f : List Byte) : Except Abort Pmlog := do
  let (num_events, f) ← orFatal "Assertion failed" (Layout.word.read f)
  let (base_tsc, f) ← orFatal "Assertion failed" (Layout.doubleWord.read f)
  let (cpu_freq, f) ← orFatal "Assertion failed" (Layout.doubleWord.read f)
  if h : num_events.toNat < 2 ^ 31 then
    let evts := PmlogEvt.layout.fread num_events.toNat f
    if evts = [] then throw (.fatal "Assertion failed")
    else return { max_num_events := max s.max_num_events num_events.toNat
                  num_events := num_events.toNat
                  pmlog_evt_buf := overwrite s.pmlog_evt_buf evts
                  base_tsc, cpu_freq
                  num_events_lt := h }
  else throw .undefined

-- The file is read back whole, whatever the reader's variables were.
def ReadsBack (s : Pmlog) : Prop :=
  ∀ r : Pmlog, ∃ r', r.pmlog_read s.pmlog_write.1 = .ok r' ∧ r'.num_events = s.num_events ∧
    r'.base_tsc = s.base_tsc ∧ r'.cpu_freq = s.cpu_freq ∧ r'.events.Perm s.events ∧
      r'.events.Pairwise fun ea eb => ea.tsc ≤ eb.tsc

-- The file with its end cut off.
def Truncated (s : Pmlog) (f : List Byte) : Prop := f <+: s.pmlog_write.1 ∧ f ≠ s.pmlog_write.1

def Rejects (f : List Byte) : Prop := ∀ r : Pmlog, ∃ abort, r.pmlog_read f = .error abort

end Pmlog

theorem compare_events_le (ea eb : PmlogEvt) : compare_events ea eb ≤ 0 ↔ ea.tsc ≤ eb.tsc := by
  unfold compare_events
  split_ifs with hlt hgt
  · exact iff_of_true (by decide) (BitVec.le_of_lt hlt)
  · exact iff_of_false (by decide) (BitVec.not_le.mpr hgt)
  · exact iff_of_true (by decide) (BitVec.not_lt.mp hgt)

theorem logHeader_length (num_events : ℕ) (base_tsc cpu_freq : BitVec 64) :
    (logHeader num_events base_tsc cpu_freq).length = 20 := by
  simp only [logHeader, List.length_append, Layout.write_length]
  rfl

theorem logFile_length (base_tsc cpu_freq : BitVec 64) (evts : List PmlogEvt) :
    (logFile base_tsc cpu_freq evts).length = 20 + evts.length * 24 := by
  rw [logFile, List.length_append, logHeader_length, Layout.writeAll_length]
  rfl

namespace Pmlog

@[simp] theorem events_length (s : Pmlog) : s.events.length = s.num_events := by
  simp [events]

theorem overwrite_range (memory : ℕ → PmlogEvt) (evts : List PmlogEvt) :
    (List.range evts.length).map (overwrite memory evts) = evts := by
  refine List.ext_getElem (by simp) fun i _ hi => ?_
  simp [overwrite, hi]

-- What is read from a file that begins with a header as it is written.
theorem pmlog_read_logHeader (r : Pmlog) {num_events : ℕ} (hlt : num_events < 2 ^ 31)
    (base_tsc cpu_freq : BitVec 64) (f : List Byte) :
    r.pmlog_read (logHeader num_events base_tsc cpu_freq ++ f) =
      if PmlogEvt.layout.fread num_events f = [] then .error (.fatal "Assertion failed")
      else .ok {
        max_num_events := max r.max_num_events num_events
        num_events
        pmlog_evt_buf := overwrite r.pmlog_evt_buf (PmlogEvt.layout.fread num_events f)
        base_tsc
        cpu_freq
        num_events_lt := hlt } := by
  have htoNat : (BitVec.ofNat 32 num_events).toNat = num_events :=
    Nat.mod_eq_of_lt (hlt.trans (by decide))
  simp only [pmlog_read, logHeader, List.append_assoc, Layout.read_write, orFatal_some, ok_bind,
    htoNat, hlt, dif_pos]
  rfl

-- Without a whole header nothing is read.
theorem rejects_of_length_lt {f : List Byte} (h : f.length < 20) : Rejects f := by
  intro r
  cases hread : r.pmlog_read f with
  | error abort => exact ⟨abort, rfl⟩
  | ok r' =>
      simp only [pmlog_read, bind_eq_ok, orFatal_eq_ok, Prod.exists] at hread
      obtain ⟨num_events, f₁, hnum, base_tsc, f₂, hbase, cpu_freq, f₃, hfreq, -⟩ := hread
      have hword : Layout.word.size = 4 := rfl
      have hdouble : Layout.doubleWord.size = 8 := rfl
      have hlength := Layout.word.read_length hnum
      have hlength₁ := Layout.doubleWord.read_length hbase
      have hlength₂ := Layout.doubleWord.read_length hfreq
      omega

-- Behind a header a first event is asked for, if one was counted.
theorem rejects_logHeader_iff {num_events : ℕ} (hlt : num_events < 2 ^ 31)
    (base_tsc cpu_freq : BitVec 64) (f : List Byte) :
    Rejects (logHeader num_events base_tsc cpu_freq ++ f) ↔ num_events = 0 ∨ f.length < 24 := by
  have hsize : PmlogEvt.layout.size = 24 := rfl
  rw [← hsize, ← Layout.fread_eq_nil]
  constructor
  · intro h
    by_contra hsome
    let r : Pmlog := ⟨0, 0, fun _ => ⟨0, 0, 0, 0⟩, 0, 0, by decide⟩
    obtain ⟨abort, hread⟩ := h r
    rw [pmlog_read_logHeader r hlt, if_neg hsome] at hread
    cases hread
  · intro hnil r
    rw [pmlog_read_logHeader r hlt, if_pos hnil]
    exact ⟨_, rfl⟩

variable {s : Pmlog}

def sorted (s : Pmlog) : List PmlogEvt := qsort compare_events s.events

theorem sorted_perm : s.sorted.Perm s.events := qsort_perm compare_events s.events

theorem sorted_pairwise : s.sorted.Pairwise fun ea eb => ea.tsc ≤ eb.tsc :=
  qsort_pairwise (fun e => e.tsc.toNat) compare_events_le s.events

theorem sorted_length : s.sorted.length = s.num_events := sorted_perm.length_eq.trans s.events_length

theorem pmlog_write_eq : s.pmlog_write.1 =
    logHeader s.num_events s.base_tsc s.cpu_freq ++ PmlogEvt.layout.writeAll s.sorted := by
  show logFile s.base_tsc s.cpu_freq s.sorted = _
  rw [logFile, sorted_length]

theorem pmlog_write_length : s.pmlog_write.1.length = 20 + s.num_events * 24 := by
  show (logFile s.base_tsc s.cpu_freq s.sorted).length = _
  rw [logFile_length, sorted_length]

-- A log is read back iff it is not empty.
theorem readsBack_iff : s.ReadsBack ↔ s.num_events ≠ 0 := by
  have hfread : PmlogEvt.layout.fread s.num_events (PmlogEvt.layout.writeAll s.sorted) = s.sorted := by
    have h : PmlogEvt.layout.fread s.sorted.length (PmlogEvt.layout.writeAll s.sorted ++ []) = s.sorted :=
      Layout.fread_writeAll s.sorted []
    rwa [List.append_nil, sorted_length] at h
  have hnil : s.sorted = [] ↔ s.num_events = 0 := by
    rw [← List.length_eq_zero_iff, sorted_length]
  unfold ReadsBack
  constructor
  · intro h hzero
    obtain ⟨r', hread, -⟩ := h s
    rw [pmlog_write_eq, pmlog_read_logHeader s s.num_events_lt, hfread, if_pos (hnil.mpr hzero)]
      at hread
    cases hread
  · intro hsome r
    rw [pmlog_write_eq, pmlog_read_logHeader r s.num_events_lt, hfread,
      if_neg (hsome.imp hnil.mp)]
    refine ⟨_, rfl, rfl, rfl, rfl, ?_⟩
    have hevents : (List.range s.num_events).map (overwrite r.pmlog_evt_buf s.sorted) = s.sorted := by
      rw [← sorted_length, overwrite_range]
    simp only [events, hevents]
    exact ⟨sorted_perm, sorted_pairwise⟩

-- A file that is cut off is rejected iff it is cut off before the end of its first event.
theorem rejects_truncated_iff {f : List Byte} (h : s.Truncated f) : Rejects f ↔ f.length < 44 := by
  obtain ⟨hpre, hne⟩ := h
  by_cases hheader : f.length < 20
  · exact iff_of_true (rejects_of_length_lt hheader) (hheader.trans (by decide))
  · have hlt : f.length < s.pmlog_write.1.length :=
      lt_of_le_of_ne hpre.length_le fun heq => hne (hpre.eq_of_length heq)
    rw [pmlog_write_eq] at hpre
    have hbegin : logHeader s.num_events s.base_tsc s.cpu_freq <+: f := by
      refine List.prefix_of_prefix_length_le (List.prefix_append _ _) hpre ?_
      rw [logHeader_length]
      exact Nat.not_lt.mp hheader
    obtain ⟨f, rfl⟩ := hbegin
    rw [pmlog_write_length, List.length_append, logHeader_length] at hlt
    rw [rejects_logHeader_iff s.num_events_lt, List.length_append, logHeader_length]
    omega

theorem rejects_all_truncated_iff : (∀ f, s.Truncated f → Rejects f) ↔ s.num_events ≤ 1 := by
  constructor
  · intro h
    by_contra hmany
    have hlength := pmlog_write_length (s := s)
    -- the file up to the end of the first event
    have hcut : (s.pmlog_write.1.take 44).length = 44 := List.length_take_of_le (by omega)
    have htruncated : s.Truncated (s.pmlog_write.1.take 44) := by
      refine ⟨List.take_prefix _ _, fun heq => ?_⟩
      rw [heq] at hcut
      omega
    have hshort := (rejects_truncated_iff htruncated).mp (h _ htruncated)
    omega
  · intro hfew f h
    rw [rejects_truncated_iff h]
    have hlt : f.length < s.pmlog_write.1.length :=
      lt_of_le_of_ne h.1.length_le fun heq => h.2 (h.1.eq_of_length heq)
    rw [pmlog_write_length] at hlt
    omega

-- Only a log of one event is both read back and rejected wherever it is cut off.
theorem pmlog_read_write_iff (s : Pmlog) :
    (s.ReadsBack ↔ s.num_events ≠ 0) ∧
      (∀ f, s.Truncated f → (Rejects f ↔ f.length < 44)) ∧
      ((s.ReadsBack ∧ ∀ f, s.Truncated f → Rejects f) ↔ s.num_events = 1) := by
  refine ⟨readsBack_iff, fun f h => rejects_truncated_iff h, ?_⟩
  rw [readsBack_iff, rejects_all_truncated_iff]
  omega

def emptyLog : Pmlog := ⟨4, 0, fun _ => ⟨0, 0, 0, 0⟩, 100, 0, by decide⟩

theorem two_lt_limit : 2 < 2 ^ 31 := by decide

def twoEvents : Pmlog where
  max_num_events := 4
  num_events := 2
  pmlog_evt_buf i := ⟨BitVec.ofNat 64 (100 + i), 7, BitVec.ofNat 32 i, 0⟩
  base_tsc := 100
  cpu_freq := 0
  num_events_lt := two_lt_limit

-- A count of no events makes fread return 0, and one event of two is more than 0.
theorem pmlog_read_misjudges :
    ¬ emptyLog.ReadsBack ∧ ¬ ∀ f, twoEvents.Truncated f → Rejects f := by
  rw [readsBack_iff, rejects_all_truncated_iff]
  decide

end Pmlog

end Puppetmaster.Runner
