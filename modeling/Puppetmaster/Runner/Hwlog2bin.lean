import Puppetmaster.Hardware.Types
import Puppetmaster.Library.Scanf
import Puppetmaster.Runner.Pmlog
import Mathlib.Data.List.Infix

namespace Puppetmaster.Runner

open Library Wrapper Hardware

-- The transaction lines that the hardware prints.
inductive HwEvent where
  | submitted
  | scheduled (puppetId : Fin MaxNumPuppets)
  | executing (puppetId : Fin MaxNumPuppets)
  | done (puppetId : Fin MaxNumPuppets)
  | removed
deriving DecidableEq

structure HwLine where
  cycle : Timestamp
  txnId : TransactionId
  event : HwEvent
deriving DecidableEq

-- $display in TxnDriver.bsv, in step 3.a and in clearWorkDone of Puppetmaster.bsv, and in
-- startWork and reportDone of Executor.bsv.
def HwEvent.display : HwEvent → List Char
  | .submitted => " submitted".toList
  | .scheduled puppetId => " scheduled on puppet_id=".toList ++ decimal puppetId
  | .executing puppetId => " executing on puppet_id=".toList ++ decimal puppetId
  | .done puppetId => " done on puppet_id=".toList ++ decimal puppetId
  | .removed => " removed".toList

def HwLine.display (l : HwLine) : List Char :=
  "[".toList ++ (decimal l.cycle.toNat ++ ("] txn_id=".toList ++ (decimal l.txnId.toNat ++ l.event.display)))

-- The event that a line is about.
def HwEvent.kind : HwEvent → PmlogKind
  | .submitted => .SUBMIT
  | .scheduled _ => .SCHED_READY
  | .executing _ => .WORK_RECV
  | .done _ => .DONE
  | .removed => .CLEANUP

def HwEvent.puppetId : HwEvent → Option (Fin MaxNumPuppets)
  | .submitted | .removed => none
  | .scheduled puppetId | .executing puppetId | .done puppetId => some puppetId

-- The formats of hwlog2bin.c
def lineFormat : List Directive :=
  text "[" ++ .lu :: (text "] txn_id=" ++ .lu :: (text " " ++ [.s 31]))

def puppetFormat (event : String) : List Directive :=
  text "[" ++ .lu :: (text "] txn_id=" ++ .lu :: (text (" " ++ event ++ " on puppet_id=") ++ [.lu]))

def scanPuppet (event : String) (line : List Char) : Option (BitVec 64) :=
  match sscanf (puppetFormat event) line with
  | [.number _, .number _, .number aux_data] => some aux_data
  | _ => none

-- The event and *puppet_id, if the line is about one.
def parse_hw_log_line (line : List Char) : Option (PmlogEvt × BitVec 32) :=
  match sscanf lineFormat line with
  | [.number timestamp, .number txn_id, .word event_type] =>
      let evt (kind : PmlogKind) (aux_data : BitVec 64) : PmlogEvt :=
        ⟨timestamp, txn_id.setWidth 32, kindValue kind, aux_data⟩
      if event_type = "submitted".toList then some (evt .SUBMIT 0, -1)
      else if event_type = "scheduled".toList then
        (scanPuppet "scheduled" line).map fun aux_data => (evt .SCHED_READY aux_data, aux_data.setWidth 32)
      else if "executing".toList <+: event_type then
        (scanPuppet "executing" line).map fun aux_data => (evt .WORK_RECV aux_data, aux_data.setWidth 32)
      else if "done".toList <+: event_type then
        (scanPuppet "done" line).map fun aux_data => (evt .DONE aux_data, -1)
      else if event_type = "removed".toList then some (evt .CLEANUP 0, -1)
      else none
  | _ => none

-- strstr(line, "txn_id=") != NULL
def aboutTxn (line : List Char) : Bool := "txn_id=".toList <:+: line

def lineSize : ℕ := 1023

def txnLines (file : List Char) : List (List Char) :=
  ((lines lineSize file).map cString).filter aboutTxn

def count_transaction_events (file : List Char) : Except Abort ℕ :=
  if (txnLines file).length < 2 ^ 31 then .ok (txnLines file).length else .error .undefined

def minTsc (evts : List PmlogEvt) : BitVec 64 :=
  evts.foldl (fun min_tsc e => if e.tsc < min_tsc then e.tsc else min_tsc) (BitVec.allOnes 64)

def rebase (evts : List PmlogEvt) : List PmlogEvt :=
  evts.map fun e => { e with tsc := e.tsc - minTsc evts + 1 }

-- There are places in the buffer for all lines that are about a transaction.
def hwlog2bin (s : Pmlog) (memory : ℕ → PmlogEvt) (file : List Char) (fpga_freq : BitVec 64) :
    Except Abort (List Byte) := do
  let event_count ← count_transaction_events file
  let _ ← s.pmlog_init memory event_count
  let evts := (txnLines file).filterMap fun line => (parse_hw_log_line line).map Prod.fst
  return logFile 1 fpga_freq (qsort compare_events (rebase evts))

def HwEvent.name : HwEvent → String
  | .submitted => "submitted"
  | .scheduled _ => "scheduled"
  | .executing _ => "executing"
  | .done _ => "done"
  | .removed => "removed"

theorem HwEvent.mem_names (e : HwEvent) :
    e.name ∈ ["submitted", "scheduled", "executing", "done", "removed"] := by
  cases e <;> simp [HwEvent.name]

def HwEvent.onPuppet (e : HwEvent) : List Char :=
  match e.puppetId with
  | some puppetId => " on puppet_id=".toList ++ decimal puppetId
  | none => []

theorem HwEvent.display_eq (e : HwEvent) : e.display = ' ' :: (e.name.toList ++ e.onPuppet) := by
  have hsplit {t name : String} (ht : t.toList = ' ' :: (name.toList ++ " on puppet_id=".toList))
      (p : List Char) : t.toList ++ p = ' ' :: (name.toList ++ (" on puppet_id=".toList ++ p)) := by
    rw [ht, List.cons_append, List.append_assoc]
  have hscheduled : " scheduled on puppet_id=".toList =
      ' ' :: ("scheduled".toList ++ " on puppet_id=".toList) := by decide
  have hexecuting : " executing on puppet_id=".toList =
      ' ' :: ("executing".toList ++ " on puppet_id=".toList) := by decide
  have hdone : " done on puppet_id=".toList = ' ' :: ("done".toList ++ " on puppet_id=".toList) := by
    decide
  cases e with
  | submitted => rfl
  | scheduled puppetId => exact hsplit hscheduled _
  | executing puppetId => exact hsplit hexecuting _
  | done puppetId => exact hsplit hdone _
  | removed => rfl

def HwEvent.auxData (e : HwEvent) : BitVec 64 :=
  match e.puppetId with
  | some puppetId => BitVec.ofNat 64 puppetId
  | none => 0

-- The puppet is saved from two of the three lines that name one.
def HwEvent.savedPuppet : HwEvent → BitVec 32
  | .scheduled puppetId | .executing puppetId => BitVec.ofNat 32 puppetId
  | .submitted | .done _ | .removed => -1

def HwLine.evt (l : HwLine) : PmlogEvt := ⟨l.cycle, l.txnId, kindValue l.event.kind, l.event.auxData⟩

-- What does not end a line or a string.
def printed (c : Char) : Bool := c != '\n' && c != '\x00'

-- What may follow a line in a buffer.
def LineEnd (rest : List Char) : Prop := ∀ c ∈ rest.head?, isspace c = true

theorem lineEnd_newline : LineEnd ['\n'] := by
  rintro c hc
  obtain rfl := Option.some.inj hc
  rfl

theorem LineEnd.not_isDigit {rest : List Char} (h : LineEnd rest) : ∀ c ∈ rest.head?, ¬ c.isDigit := by
  intro c hc hdigit
  have hspace := h c hc
  rw [isspace_of_isDigit hdigit] at hspace
  cases hspace

theorem toNat_lt_two_pow_64 (txnId : TransactionId) : txnId.toNat < 2 ^ 64 :=
  txnId.isLt.trans (by decide)

section

variable (l : HwLine) {rest : List Char}

theorem not_isDigit_head_text {t : String} {c : Char} {p : List Char} (ht : t.toList = c :: p)
    (hc : ¬ c.isDigit) (rest : List Char) : ∀ d ∈ (t.toList ++ rest).head?, ¬ d.isDigit := by
  intro d hd
  rw [ht] at hd
  obtain rfl := Option.some.inj hd
  exact hc

-- Both formats begin with the time and the transaction.
theorem sscanf_head (format : List Directive) (p : List Char) (hp : ∀ c ∈ p.head?, ¬ c.isDigit) :
    sscanf (text "[" ++ .lu :: (text "] txn_id=" ++ .lu :: format))
        ("[".toList ++ (decimal l.cycle.toNat ++ ("] txn_id=".toList ++ (decimal l.txnId.toNat ++ p)))) =
      .number l.cycle :: .number (l.txnId.setWidth 64) :: sscanf format p := by
  rw [sscanf_text _ _ (by decide), sscanf_lu _ l.cycle.isLt (not_isDigit_head_text rfl (by decide) _),
    sscanf_text _ _ (by decide), sscanf_lu _ (toNat_lt_two_pow_64 l.txnId) hp, BitVec.ofNat_toNat,
    BitVec.ofNat_toNat, BitVec.setWidth_eq]

theorem lineEnd_onPuppet (e : HwEvent) (hrest : LineEnd rest) : LineEnd (e.onPuppet ++ rest) := by
  unfold HwEvent.onPuppet
  cases e.puppetId with
  | none => exact hrest
  | some puppetId =>
      rintro c hc
      obtain rfl := Option.some.inj hc
      rfl

theorem sscanf_lineFormat (hrest : LineEnd rest) : sscanf lineFormat (l.display ++ rest) =
    [.number l.cycle, .number (l.txnId.setWidth 64), .word l.event.name.toList] := by
  have hnames : ∀ name ∈ ["submitted", "scheduled", "executing", "done", "removed"],
      name.toList ≠ [] ∧ name.toList.any isspace = false ∧ name.toList.length ≤ 31 := by decide
  obtain ⟨hne, hany, hlength⟩ := hnames _ l.event.mem_names
  have hname (c : Char) (hc : c ∈ l.event.name.toList) : isspace c = false :=
    Bool.eq_false_iff.mpr (List.any_eq_false.mp hany c hc)
  have htail := lineEnd_onPuppet l.event hrest
  have hword := sscanf_space_s [] hne hname hlength htail
  have hspace : ∀ c ∈ (' ' :: (l.event.name.toList ++ (l.event.onPuppet ++ rest))).head?, ¬ c.isDigit := by
    rintro c hc
    obtain rfl := Option.some.inj hc
    decide
  simp only [lineFormat, HwLine.display, HwEvent.display_eq, List.append_assoc, List.cons_append]
  rw [sscanf_head l _ _ hspace]
  exact congrArg (fun p => .number l.cycle :: .number (l.txnId.setWidth 64) :: p) hword

-- The second format finds the puppet of a line that is about the event.
theorem scanPuppet_display (hrest : LineEnd rest) {puppetId : Fin MaxNumPuppets}
    (h : l.event.puppetId = some puppetId) :
    scanPuppet l.event.name (l.display ++ rest) = some (BitVec.ofNat 64 puppetId) := by
  have hnames : ∀ name ∈ ["submitted", "scheduled", "executing", "done", "removed"],
      spaced (" " ++ name ++ " on puppet_id=").toList = true := by decide
  have hspaced := hnames _ l.event.mem_names
  have htext : (" " ++ l.event.name ++ " on puppet_id=").toList ++ (decimal puppetId ++ rest) =
      l.event.display ++ rest := by
    rw [HwEvent.display_eq, HwEvent.onPuppet, h]
    simp
  have hspace : ∀ c ∈ (l.event.display ++ rest).head?, ¬ c.isDigit := by
    rintro c hc
    rw [HwEvent.display_eq] at hc
    obtain rfl := Option.some.inj hc
    decide
  have hpuppet : sscanf (text (" " ++ l.event.name ++ " on puppet_id=") ++ [.lu]) (l.event.display ++ rest) =
      [.number (BitVec.ofNat 64 puppetId)] := by
    rw [← htext, sscanf_text _ _ hspaced,
      sscanf_lu _ (puppetId.isLt.trans (by decide)) hrest.not_isDigit]
    rfl
  have hscan := sscanf_head l (text (" " ++ l.event.name ++ " on puppet_id=") ++ [.lu]) _ hspace
  rw [hpuppet] at hscan
  simp only [scanPuppet, puppetFormat, HwLine.display, List.append_assoc, hscan]

theorem evt_eq {e : HwEvent} (h : l.event = e) :
    ⟨l.cycle, (l.txnId.setWidth 64).setWidth 32, kindValue e.kind, e.auxData⟩ = l.evt := by
  rw [HwLine.evt, h, BitVec.setWidth_setWidth_of_le _ (by decide), BitVec.setWidth_eq]

theorem setWidth_puppetId (puppetId : Fin MaxNumPuppets) :
    (BitVec.ofNat 64 puppetId.val).setWidth 32 = BitVec.ofNat 32 puppetId.val := by
  revert puppetId
  decide

-- Each line is parsed to the event that it was printed for.
theorem parse_display (hrest : LineEnd rest) :
    parse_hw_log_line (l.display ++ rest) = some (l.evt, l.event.savedPuppet) := by
  have hscan {puppetId : Fin MaxNumPuppets} (h : l.event.puppetId = some puppetId) :=
    scanPuppet_display l hrest h
  obtain ⟨e, he⟩ : ∃ e, l.event = e := ⟨_, rfl⟩
  have hevt := evt_eq l he
  rw [parse_hw_log_line, sscanf_lineFormat l hrest]
  rw [he] at hscan ⊢
  dsimp only
  cases e with
  | submitted =>
      have hname : HwEvent.submitted.name.toList = "submitted".toList := rfl
      rw [hname, if_pos rfl]
      exact congrArg some (Prod.ext hevt rfl)
  | scheduled puppetId =>
      have hname : (HwEvent.scheduled puppetId).name = "scheduled" := rfl
      have hsubmitted : ¬ "scheduled".toList = "submitted".toList := by decide
      have hscan := hscan rfl
      rw [hname] at hscan ⊢
      rw [if_neg hsubmitted, if_pos rfl, hscan, Option.map_some]
      exact congrArg some (Prod.ext hevt (setWidth_puppetId puppetId))
  | executing puppetId =>
      have hname : (HwEvent.executing puppetId).name = "executing" := rfl
      have hsubmitted : ¬ "executing".toList = "submitted".toList := by decide
      have hscheduled : ¬ "executing".toList = "scheduled".toList := by decide
      have hscan := hscan rfl
      rw [hname] at hscan ⊢
      rw [if_neg hsubmitted, if_neg hscheduled, if_pos List.prefix_rfl, hscan, Option.map_some]
      exact congrArg some (Prod.ext hevt (setWidth_puppetId puppetId))
  | done puppetId =>
      have hname : (HwEvent.done puppetId).name = "done" := rfl
      have hsubmitted : ¬ "done".toList = "submitted".toList := by decide
      have hscheduled : ¬ "done".toList = "scheduled".toList := by decide
      have hexecuting : ¬ "executing".toList <+: "done".toList := by decide
      have hscan := hscan rfl
      rw [hname] at hscan ⊢
      rw [if_neg hsubmitted, if_neg hscheduled, if_neg hexecuting, if_pos List.prefix_rfl, hscan,
        Option.map_some]
      exact congrArg some (Prod.ext hevt rfl)
  | removed =>
      have hname : HwEvent.removed.name = "removed" := rfl
      have hsubmitted : ¬ "removed".toList = "submitted".toList := by decide
      have hscheduled : ¬ "removed".toList = "scheduled".toList := by decide
      have hexecuting : ¬ "executing".toList <+: "removed".toList := by decide
      have hdone : ¬ "done".toList <+: "removed".toList := by decide
      rw [hname, if_neg hsubmitted, if_neg hscheduled, if_neg hexecuting, if_neg hdone, if_pos rfl]
      exact congrArg some (Prod.ext hevt rfl)

theorem all_printed_display : l.display.all printed = true := by
  have hdecimal (n : ℕ) : (decimal n).all printed = true := by
    refine List.all_eq_true.mpr fun c hc => ?_
    have hdigit := isDigit_of_mem_decimal hc
    refine Bool.and_eq_true_iff.mpr ⟨bne_iff_ne.mpr ?_, bne_iff_ne.mpr ?_⟩
    · rintro rfl
      cases hdigit
    · rintro rfl
      cases hdigit
  have htexts : ∀ t ∈ ["[", "] txn_id=", " on puppet_id="], t.toList.all printed = true := by decide
  have hnames : ∀ name ∈ ["submitted", "scheduled", "executing", "done", "removed"],
      name.toList.all printed = true := by decide
  have honPuppet : l.event.onPuppet.all printed = true := by
    unfold HwEvent.onPuppet
    cases l.event.puppetId with
    | none => rfl
    | some puppetId => simp only [List.all_append, htexts, List.mem_cons, true_or, or_true, hdecimal,
        Bool.and_self]
  simp only [HwLine.display, HwEvent.display_eq, List.all_append, List.all_cons, htexts, List.mem_cons,
    true_or, or_true, hdecimal, hnames _ l.event.mem_names, honPuppet, Bool.and_true, Bool.true_and]
  rfl

theorem not_mem_display {c : Char} (hc : printed c = false) : c ∉ l.display := by
  intro hmem
  have h := List.all_eq_true.mp (all_printed_display l) c hmem
  rw [hc] at h
  cases h

theorem display_length : l.display.length < lineSize := by
  have hcycle : (decimal l.cycle.toNat).length ≤ 20 :=
    decimal_length (by decide) (l.cycle.isLt.trans (by decide))
  have htxnId : (decimal l.txnId.toNat).length ≤ 10 :=
    decimal_length (by decide) (l.txnId.isLt.trans (by decide))
  have hname : ∀ name ∈ ["submitted", "scheduled", "executing", "done", "removed"],
      name.toList.length ≤ 9 := by decide
  have honPuppet : l.event.onPuppet.length ≤ 20 := by
    unfold HwEvent.onPuppet
    cases l.event.puppetId with
    | none => exact Nat.zero_le _
    | some puppetId =>
        have htext : " on puppet_id=".toList.length = 14 := by decide
        have hpuppet : (decimal puppetId).length ≤ 3 :=
          decimal_length (by decide) (puppetId.isLt.trans (by decide))
        rw [List.length_append, htext]
        omega
  have hname := hname _ l.event.mem_names
  have hopen : "[".toList.length = 1 := by decide
  have hclose : "] txn_id=".toList.length = 9 := by decide
  rw [HwLine.display, HwEvent.display_eq]
  simp only [List.length_append, List.length_cons, hopen, hclose, lineSize]
  omega

theorem aboutTxn_display : aboutTxn (l.display ++ rest) = true := by
  have hclose : "] txn_id=".toList = "] ".toList ++ "txn_id=".toList := by decide
  refine decide_eq_true ⟨"[".toList ++ (decimal l.cycle.toNat ++ "] ".toList),
    decimal l.txnId.toNat ++ l.event.display ++ rest, ?_⟩
  simp only [HwLine.display, hclose, List.append_assoc]

end

-- The text of a log.
def hwLog (log : List HwLine) : List Char := (log.map HwLine.display).flatMap (· ++ ['\n'])

theorem txnLines_hwLog (log : List HwLine) :
    txnLines (hwLog log) = log.map fun l => l.display ++ ['\n'] := by
  have hrows : ∀ row ∈ log.map HwLine.display, '\n' ∉ row ∧ row.length < lineSize := by
    exact List.forall_mem_map.mpr fun l _ => ⟨not_mem_display l rfl, display_length l⟩
  have hcString : (cString ∘ (· ++ ['\n'])) ∘ HwLine.display = fun l => l.display ++ ['\n'] := by
    refine funext fun l => cString_of_not_mem fun hc => ?_
    rcases List.mem_append.mp hc with hc | hc
    · exact not_mem_display l rfl hc
    · revert hc
      decide
  rw [txnLines, hwLog, lines_rows hrows, List.map_map, List.map_map, hcString]
  exact List.filter_eq_self.mpr (List.forall_mem_map.mpr fun l _ => aboutTxn_display l)

theorem filterMap_txnLines (log : List HwLine) :
    ((txnLines (hwLog log)).filterMap fun line => (parse_hw_log_line line).map Prod.fst) =
      log.map HwLine.evt := by
  rw [txnLines_hwLog, List.filterMap_map]
  have hparse : ((fun line => (parse_hw_log_line line).map Prod.fst) ∘ fun l => l.display ++ ['\n']) =
      some ∘ HwLine.evt := by
    funext l
    show (parse_hw_log_line (l.display ++ ['\n'])).map Prod.fst = some l.evt
    rw [parse_display l lineEnd_newline, Option.map_some]
  rw [hparse, List.filterMap_eq_map]

theorem minTsc_le (evts : List PmlogEvt) : ∀ e ∈ evts, minTsc evts ≤ e.tsc := by
  have hfold (m : BitVec 64) :
      let m' := evts.foldl (fun min_tsc e => if e.tsc < min_tsc then e.tsc else min_tsc) m
      m' ≤ m ∧ ∀ e ∈ evts, m' ≤ e.tsc := by
    induction evts generalizing m with
    | nil => exact ⟨BitVec.le_refl _, fun _ h => nomatch h⟩
    | cons e evts ih =>
        obtain ⟨hm, hevts⟩ := ih (if e.tsc < m then e.tsc else m)
        rw [List.foldl_cons]
        by_cases he : e.tsc < m
        · rw [if_pos he] at hm hevts ⊢
          exact ⟨BitVec.le_trans hm (BitVec.le_of_lt he), List.forall_mem_cons.mpr ⟨hm, hevts⟩⟩
        · rw [if_neg he] at hm hevts ⊢
          have hle := BitVec.not_lt.mp he
          exact ⟨hm, List.forall_mem_cons.mpr ⟨BitVec.le_trans hm hle, hevts⟩⟩
  exact (hfold _).2

-- A time as rebase moves it.
def shifted (min_tsc tsc : BitVec 64) : BitVec 64 := tsc - min_tsc + 1

theorem shifted_toNat {min_tsc tsc : BitVec 64} (hmin : min_tsc ≤ tsc) (htsc : tsc.toNat < 2 ^ 63) :
    (shifted min_tsc tsc).toNat = tsc.toNat - min_tsc.toNat + 1 := by
  have hmin : min_tsc.toNat ≤ tsc.toNat := hmin
  rw [shifted, BitVec.toNat_add, BitVec.toNat_sub_of_le hmin]
  exact Nat.mod_eq_of_lt (by show _ + 1 < _; omega)

-- One event for each line, moved to where the first time is 1.
theorem hwlog2bin_hwLog (s : Pmlog) (memory : ℕ → PmlogEvt) (fpga_freq : BitVec 64)
    {log : List HwLine} (hne : log ≠ []) (hlength : log.length < 2 ^ 31) :
    hwlog2bin s memory (hwLog log) fpga_freq =
      .ok (logFile 1 fpga_freq (qsort compare_events (rebase (log.map HwLine.evt)))) := by
  have hcount : count_transaction_events (hwLog log) = .ok log.length := by
    rw [count_transaction_events, txnLines_hwLog, List.length_map, if_pos hlength]
  rw [hwlog2bin, hcount, ok_bind, Pmlog.pmlog_init, if_pos (List.length_pos_of_ne_nil hne), ok_bind,
    filterMap_txnLines]
  rfl

section

variable {log : List HwLine}

theorem minTsc_le_cycle : ∀ l ∈ log, minTsc (log.map HwLine.evt) ≤ l.cycle := by
  intro l hl
  exact minTsc_le (log.map HwLine.evt) l.evt (List.mem_map_of_mem hl)

theorem rebase_perm : (qsort compare_events (rebase (log.map HwLine.evt))).Perm
    (log.map fun l => { l.evt with tsc := shifted (minTsc (log.map HwLine.evt)) l.cycle }) := by
  refine (qsort_perm _ _).trans (List.Perm.of_eq ?_)
  rw [rebase, List.map_map]
  rfl

-- The parser undoes what the hardware prints, and the conversion keeps each line as an event.
theorem hwlog2bin_converts (s : Pmlog) (memory : ℕ → PmlogEvt) (fpga_freq : BitVec 64)
    (hne : log ≠ []) (hlength : log.length < 2 ^ 31) (hcycle : ∀ l ∈ log, l.cycle.toNat < 2 ^ 63) :
    (∀ (l : HwLine) (rest : List Char), LineEnd rest →
      ∃ evt puppet_id, parse_hw_log_line (l.display ++ rest) = some (evt, puppet_id) ∧
        evt.tsc = l.cycle ∧ evt.txn_id = l.txnId ∧ evt.kind = kindValue l.event.kind ∧
          ∀ puppetId ∈ l.event.puppetId, evt.aux_data = BitVec.ofNat 64 puppetId) ∧
      ∃ (min_tsc : BitVec 64) (out : List PmlogEvt),
        hwlog2bin s memory (hwLog log) fpga_freq = .ok (logFile 1 fpga_freq out) ∧
          out.Perm (log.map fun l => { l.evt with tsc := shifted min_tsc l.cycle }) ∧
          (∀ l ∈ log, 1 ≤ (shifted min_tsc l.cycle).toNat) ∧
          ∀ l ∈ log, ∀ m ∈ log, ((shifted min_tsc l.cycle).toNat : ℤ) - (shifted min_tsc m.cycle).toNat =
            l.cycle.toNat - m.cycle.toNat := by
  have htoNat : ∀ l ∈ log, (shifted (minTsc (log.map HwLine.evt)) l.cycle).toNat =
      l.cycle.toNat - (minTsc (log.map HwLine.evt)).toNat + 1 :=
    fun l hl => shifted_toNat (minTsc_le_cycle l hl) (hcycle l hl)
  refine ⟨fun l rest hrest => ?_, minTsc (log.map HwLine.evt), _,
    hwlog2bin_hwLog s memory fpga_freq hne hlength, rebase_perm, fun l hl => ?_, fun l hl m hm => ?_⟩
  · refine ⟨l.evt, l.event.savedPuppet, parse_display l hrest, rfl, rfl, rfl, fun puppetId hp => ?_⟩
    rw [HwLine.evt, HwEvent.auxData, Option.mem_def.mp hp]
  · rw [htoNat l hl]
    exact Nat.le_add_left 1 _
  · have hl' : (minTsc (log.map HwLine.evt)).toNat ≤ l.cycle.toNat := minTsc_le_cycle l hl
    have hm' : (minTsc (log.map HwLine.evt)).toNat ≤ m.cycle.toNat := minTsc_le_cycle m hm
    rw [htoNat l hl, htoNat m hm]
    omega

end

-- One transaction on its way, on the last of the puppets.
def fiveLines : List HwLine :=
  [⟨1000, 7, .submitted⟩, ⟨1003, 7, .scheduled ⟨MaxNumPuppets - 1, by decide⟩⟩,
    ⟨1004, 7, .executing ⟨MaxNumPuppets - 1, by decide⟩⟩, ⟨2004, 7, .done ⟨MaxNumPuppets - 1, by decide⟩⟩,
    ⟨2005, 7, .removed⟩]

theorem hwlog2bin_converts_fiveLines :
    ∃ (min_tsc : BitVec 64) (out : List PmlogEvt),
      hwlog2bin Pmlog.emptyLog (fun _ => ⟨0, 0, 0, 0⟩) (hwLog fiveLines) 0 = .ok (logFile 1 0 out) ∧
        out.Perm (fiveLines.map fun l => { l.evt with tsc := shifted min_tsc l.cycle }) := by
  obtain ⟨-, min_tsc, out, hout, hperm, -⟩ := hwlog2bin_converts Pmlog.emptyLog
    (fun _ => ⟨0, 0, 0, 0⟩) 0 (show fiveLines ≠ [] by decide) (by decide) (by decide)
  exact ⟨min_tsc, out, hout, hperm⟩

-- Without a line pmlog_init has no place to make, and an int does not count 2^31 lines.
theorem hwlog2bin_fails :
    hwlog2bin Pmlog.emptyLog (fun _ => ⟨0, 0, 0, 0⟩) (hwLog []) 0 = .error (.fatal "Assertion failed") ∧
      hwlog2bin Pmlog.emptyLog (fun _ => ⟨0, 0, 0, 0⟩)
        (hwLog (List.replicate (2 ^ 31) ⟨1000, 7, .submitted⟩)) 0 = .error .undefined := by
  constructor
  · rfl
  · rw [hwlog2bin, count_transaction_events, txnLines_hwLog, List.length_map, List.length_replicate,
      if_neg (lt_irrefl _)]
    rfl

end Puppetmaster.Runner
