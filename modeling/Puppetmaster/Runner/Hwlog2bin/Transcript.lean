import Puppetmaster.Hardware.Connectal.Stops
import Puppetmaster.Runner.Hwlog2bin

namespace Puppetmaster

open Library Wrapper Hardware Runner

def Hardware.HwOutput.display : HwOutput → List Char
  | .line l => l.display
  | .refreshing cycle => "[".toList ++ (decimal cycle.toNat ++ "] refreshing".toList)

namespace Runner

def lineFeed (row : List Char) : List Char := row ++ ['\n']

-- Lines of a file of which those about a transaction are the ones that the hardware printed.
structure Transcript (printed : List HwOutput) (rows : List (List Char)) : Prop where
  rows_short : ∀ row ∈ rows, '\n' ∉ row ∧ row.length < lineSize
  about : rows.filter aboutTxn = (printed.map HwOutput.display).filter aboutTxn

theorem aboutTxn_refreshing (cycle : Timestamp) :
    aboutTxn (HwOutput.display (.refreshing cycle)) = false := by
  refine decide_eq_false fun habout => ?_
  have hmem : 't' ∈ HwOutput.display (.refreshing cycle) := habout.subset (by decide)
  have htexts : ∀ t ∈ ["[", "] refreshing"], 't' ∉ t.toList := by decide
  simp only [HwOutput.display, List.mem_append, htexts, List.mem_cons, true_or, or_true, false_or,
    or_false] at hmem
  exact absurd (isDigit_of_mem_decimal hmem) (by decide)

theorem filter_display (printed : List HwOutput) :
    (printed.map HwOutput.display).filter aboutTxn =
      (printed.filterMap HwOutput.txnLine).map HwLine.display := by
  induction printed with
  | nil => rfl
  | cons out printed ih =>
      cases out with
      | line l =>
          have habout : aboutTxn (HwOutput.display (.line l)) = true := by
            have h : aboutTxn (l.display ++ []) = true := aboutTxn_display l
            rwa [List.append_nil] at h
          rw [List.map_cons, List.filter_cons_of_pos habout, ih]
          rfl
      | refreshing cycle =>
          have habout : ¬ aboutTxn (HwOutput.display (.refreshing cycle)) = true := by
            rw [aboutTxn_refreshing]
            exact Bool.false_ne_true
          rw [List.map_cons, List.filter_cons_of_neg habout, ih]
          rfl

theorem refreshing_short (cycle : Timestamp) :
    '\n' ∉ HwOutput.display (.refreshing cycle) ∧ (HwOutput.display (.refreshing cycle)).length < lineSize := by
  have htexts : ∀ t ∈ ["[", "] refreshing"], '\n' ∉ t.toList ∧ t.toList.length ≤ 12 := by decide
  obtain ⟨hopen, hopenLength⟩ := htexts "[" (by decide)
  obtain ⟨hclose, hcloseLength⟩ := htexts "] refreshing" (by decide)
  have hdigits : '\n' ∉ decimal cycle.toNat := fun hmem => absurd (isDigit_of_mem_decimal hmem) (by decide)
  have hlength : (decimal cycle.toNat).length ≤ 20 :=
    decimal_length (by decide) (cycle.isLt.trans (by decide))
  constructor
  · simp only [HwOutput.display, List.mem_append, hopen, hdigits, hclose, or_self, not_false_eq_true]
  · simp only [HwOutput.display, List.length_append, lineSize]
    omega

-- The file may hold nothing but what the hardware prints.
theorem Transcript.of_printed (printed : List HwOutput) :
    Transcript printed (printed.map HwOutput.display) := by
  refine ⟨List.forall_mem_map.mpr fun out _ => ?_, rfl⟩
  cases out with
  | line l => exact ⟨not_mem_display l rfl, display_length l⟩
  | refreshing cycle => exact refreshing_short cycle

-- A line is no more about a transaction in a buffer than it is in the file.
theorem aboutTxn_of_buffer {row : List Char} (h : aboutTxn (cString (lineFeed row)) = true) :
    aboutTxn row = true := by
  have hbuffer : cString (lineFeed row) <+: row ++ ['\n'] := List.takeWhile_prefix _
  have hinfix : "txn_id=".toList <:+: row ++ ['\n'] := (of_decide_eq_true h).trans hbuffer.isInfix
  refine decide_eq_true ((List.infix_concat_iff.mp hinfix).resolve_left fun hsuffix => ?_)
  rcases List.suffix_concat_iff.mp hsuffix with hnil | ⟨front, hfront, -⟩
  · revert hnil
    decide
  · have hmem : '\n' ∈ "txn_id=".toList := hfront ▸ List.mem_append_right _ List.mem_cons_self
    revert hmem
    decide

theorem buffer_display (l : HwLine) : cString (lineFeed l.display) = lineFeed l.display := by
  refine cString_of_not_mem fun hc => ?_
  rcases List.mem_append.mp hc with hc | hc
  · exact not_mem_display l rfl hc
  · revert hc
    decide

theorem txnLines_transcript {printed : List HwOutput} {rows : List (List Char)} (h : Transcript printed rows) :
    txnLines (rows.flatMap lineFeed) = txnLines (hwLog (printed.filterMap HwOutput.txnLine)) := by
  have hsame : rows.filter (fun row => aboutTxn (cString (lineFeed row))) = rows.filter aboutTxn := by
    refine List.filter_congr fun row hrow => Bool.eq_iff_iff.mpr ⟨aboutTxn_of_buffer, fun habout => ?_⟩
    have hmem : row ∈ rows.filter aboutTxn := List.mem_filter.mpr ⟨hrow, habout⟩
    rw [h.about, filter_display] at hmem
    obtain ⟨l, -, rfl⟩ := List.mem_map.mp hmem
    rw [buffer_display]
    exact aboutTxn_display l
  have hlines : lines lineSize (rows.flatMap lineFeed) = rows.map lineFeed := lines_rows h.rows_short
  rw [txnLines_hwLog, txnLines, hlines, List.map_map, List.filter_map]
  have hfilter : rows.filter (aboutTxn ∘ cString ∘ lineFeed) =
      (printed.filterMap HwOutput.txnLine).map HwLine.display := by
    rw [← filter_display, ← h.about]
    exact hsame
  rw [hfilter, List.map_map]
  exact List.map_congr_left fun l _ => buffer_display l

theorem hwlog2bin_congr (s : Pmlog) (memory : ℕ → PmlogEvt) (fpga_freq : BitVec 64) {f g : List Char}
    (h : txnLines f = txnLines g) : hwlog2bin s memory f fpga_freq = hwlog2bin s memory g fpga_freq := by
  simp only [hwlog2bin, count_transaction_events, h]

-- A file is read back whole if it has an event.
theorem Pmlog.pmlog_read_logFile (r : Pmlog) (base_tsc cpu_freq : BitVec 64) {evts : List PmlogEvt}
    (hne : evts ≠ []) (hlength : evts.length < 2 ^ 31) :
    ∃ r', r.pmlog_read (logFile base_tsc cpu_freq evts) = .ok r' ∧ r'.events = evts := by
  have hfread : PmlogEvt.layout.fread evts.length (PmlogEvt.layout.writeAll evts) = evts := by
    have h := PmlogEvt.layout.fread_writeAll evts []
    rwa [List.append_nil] at h
  rw [logFile, Pmlog.pmlog_read_logHeader r hlength, hfread, if_neg hne]
  exact ⟨_, rfl, Pmlog.overwrite_range r.pmlog_evt_buf evts⟩

end Runner

end Puppetmaster
