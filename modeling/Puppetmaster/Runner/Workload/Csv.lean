import Puppetmaster.Library.Text
import Puppetmaster.Runner.Workload.Bin

namespace Puppetmaster.Runner

open Library Wrapper

-- The writer of generate.c

def writeObj (flag : Char) (obj : ObjId) : List Char := ',' :: (print_u obj ++ [',', flag])

def writeRow (t : Txn) : List Char :=
  print_u t.id ++ [',', '0'] ++ t.readList.flatMap (writeObj '0') ++
    t.writeList.flatMap (writeObj '1')

def write_csv (wl : Workload) : List Char :=
  (List.ofFn wl.txns).flatMap fun t => writeRow t ++ ['\n']

-- The reader of workload.c. Its buffers have 1000 characters, the last of them for the NUL.

def bufSize : ℕ := 999

def count_lines (f : List Char) : ℕ :=
  (lines bufSize f).countP fun buf => (cString buf).length > 1

-- while (*p && *p != ',') p++; if (*p == ',') p++;
def skipField (p : List Char) : List Char := (p.dropWhile (· ≠ ',')).tail

theorem skipField_length (p : List Char) : (skipField p).length ≤ p.length - 1 := by
  have hdrop := (List.dropWhile_sublist (· ≠ ',') (l := p)).length_le
  rw [skipField, List.length_tail]
  omega

def pushObj (txn : Txn) (objid : ObjId) (writeflag : BitVec 32) : Except Abort Txn :=
  if writeflag ≠ 0 then pushOr txn true objid (.fatal "Too many write objects")
  else pushOr txn false objid (.fatal "Too many read objects")

def parseObjs (p : List Char) (txn : Txn) : Except Abort Txn :=
  if _ : p = [] then .ok txn
  else do
    let objid ← orFatal "Failed to parse objid" (scan_u p)
    let writeflag ← orFatal "Failed to parse writeflag" (scan_d (skipField p))
    let txn ← pushObj txn objid writeflag
    parseObjs (skipField (skipField p)) txn
termination_by p.length
decreasing_by
  have hpos : 0 < p.length := List.length_pos_iff.mpr ‹_›
  have hfirst := skipField_length p
  have hsecond := skipField_length (skipField p)
  omega

-- What was in the memory of the transaction stays in the slots that no object is put into.
def parse_txn (txn : Txn) (buf : List Char) : Except Abort Txn := do
  let id ← orFatal "Failed to parse id" (scan_u buf)
  let p := skipField buf
  let aux_data ← orFatal "Failed to parse aux_data" (scan_lu p)
  parseObjs (skipField p) (txn.restart id (aux_data.setWidth 32))

-- buf[strcspn(buf, "\n")] = 0
def cutLine (buf : List Char) : List Char := (cString buf).takeWhile (· ≠ '\n')

-- The lines from the one on that becomes transaction `i`, in the memory that malloc gave.
def parseLines (memory : ℕ → Txn) : ℕ → List (List Char) → Except Abort (List Txn)
  | _, [] => .ok []
  | i, buf :: bufs =>
      if cutLine buf = [] then parseLines memory i bufs
      else do
        let txn ← parse_txn (memory i) (cutLine buf)
        let txns ← parseLines memory (i + 1) bufs
        return txn :: txns

-- Lines that are parsed but were not counted are written beyond the memory for the workload.
def parse_workload_csv (memory : ℕ → Txn) (f : List Char) : Except Abort Workload :=
  if h : count_lines f < 2 ^ 31 then do
    let txns ← parseLines memory 0 (lines bufSize f)
    if hcount : txns.length = count_lines f then
      return ⟨count_lines f, fun i => txns.get (i.cast hcount.symm), h⟩
    else throw .undefined
  else throw .undefined

-- What follows a field is nothing or a comma.
def FieldEnd (rest : List Char) : Prop := ∀ c ∈ rest.head?, c = ','

theorem fieldEnd_nil : FieldEnd [] := fun _ h => nomatch h

theorem fieldEnd_comma (rest : List Char) : FieldEnd (',' :: rest) := fun _ h =>
  (Option.some.inj h).symm

theorem FieldEnd.not_isDigit {rest : List Char} (h : FieldEnd rest) :
    ∀ c ∈ rest.head?, ¬ c.isDigit := by
  intro c hc
  obtain rfl := h c hc
  decide

theorem fieldEnd_writeObjs (flag : Char) (objs : List ObjId) {rest : List Char}
    (hrest : FieldEnd rest) : FieldEnd (objs.flatMap (writeObj flag) ++ rest) := by
  cases objs with
  | nil => exact hrest
  | cons obj objs => exact fieldEnd_comma _

theorem skipField_append {field rest : List Char} (hfield : ',' ∉ field) (hrest : FieldEnd rest) :
    skipField (field ++ rest) = rest.tail := by
  have hdrop : (field ++ rest).dropWhile (· ≠ ',') = rest := by
    rw [List.dropWhile_append_of_pos]
    · cases rest with
      | nil => rfl
      | cons c rest =>
          obtain rfl := hrest c rfl
          rfl
    · intro c hc
      refine decide_eq_true ?_
      rintro rfl
      exact hfield hc
  rw [skipField, hdrop]

theorem comma_not_mem_print_u (n : BitVec 32) : ',' ∉ print_u n := fun h =>
  absurd (isDigit_of_mem_print_u h) (by decide)

theorem parseObjs_nil {txn : Txn} : parseObjs [] txn = .ok txn := by
  rw [parseObjs, dif_pos rfl]

-- One turn of the loop takes one object off the line.
theorem parseObjs_writeObj {flag : Char} {writeflag : BitVec 32} (hflag : flag ≠ ',')
    (obj : ObjId) {rest : List Char} (hrest : FieldEnd rest)
    (hscan : scan_d (flag :: rest) = some writeflag) (txn : Txn) :
    parseObjs (writeObj flag obj ++ rest).tail txn =
      pushObj txn obj writeflag >>= parseObjs rest.tail := by
  have hp : (writeObj flag obj ++ rest).tail = print_u obj ++ ',' :: flag :: rest := by
    simp [writeObj]
  have hend : FieldEnd (',' :: flag :: rest) := fieldEnd_comma _
  have hskip : skipField (print_u obj ++ ',' :: flag :: rest) = flag :: rest :=
    skipField_append (comma_not_mem_print_u obj) hend
  have hskip' : skipField (flag :: rest) = rest.tail :=
    @skipField_append [flag] rest (by simpa using hflag.symm) hrest
  have hne : print_u obj ++ ',' :: flag :: rest ≠ [] := by simp
  rw [hp, parseObjs, dif_neg hne, scan_u_print_u obj hend.not_isDigit, hskip, hscan, hskip']
  rfl

-- The flag that is written for the objects of one of the two lists.
def flagChar (is_write : Bool) : Char := if is_write then '1' else '0'

def flagValue (is_write : Bool) : BitVec 32 := if is_write then 1 else 0

theorem scanNumber_digit {c : Char} (hc : c.isDigit = true) {rest : List Char}
    (hrest : FieldEnd rest) : scanNumber (c :: rest) = some ⟨false, Nat.ofDigitChars 10 [c] 0⟩ := by
  have hdigit : ∀ d ∈ [c], d.isDigit = true := by simpa using hc
  exact scanNumber_digits (List.cons_ne_nil c []) hdigit hrest.not_isDigit

theorem scan_d_flagChar (is_write : Bool) {rest : List Char} (hrest : FieldEnd rest) :
    scan_d (flagChar is_write :: rest) = some (flagValue is_write) := by
  cases is_write with
  | true =>
      rw [scan_d, scanNumber_digit (by decide) hrest]
      rfl
  | false =>
      rw [scan_d, scanNumber_digit (by decide) hrest]
      rfl

theorem pushObj_total {txn : Txn} {is_write : Bool}
    (hroom : ((record txn).objs is_write).length < MAX_TXN_OBJS) (obj : ObjId) :
    ∃ txn', pushObj txn obj (flagValue is_write) = .ok txn' ∧
      record txn' = (record txn).append is_write [obj] := by
  obtain ⟨txn', hpush⟩ : ∃ txn', pushObj txn obj (flagValue is_write) = .ok txn' := by
    cases is_write with
    | true => exact pushOr_total hroom obj _
    | false => exact pushOr_total hroom obj _
  refine ⟨txn', hpush, ?_⟩
  cases is_write with
  | true => exact record_of_pushOr hpush
  | false => exact record_of_pushOr hpush

-- The objects of a list are put into the array that their flags say, in their order.
theorem parseObjs_writeObjs (is_write : Bool) (objs : List ObjId) {rest : List Char}
    (hrest : FieldEnd rest) (txn : Txn)
    (hroom : ((record txn).objs is_write).length + objs.length ≤ MAX_TXN_OBJS) :
    ∃ txn', parseObjs (objs.flatMap (writeObj (flagChar is_write)) ++ rest).tail txn =
        parseObjs rest.tail txn' ∧
      record txn' = (record txn).append is_write objs := by
  induction objs generalizing txn with
  | nil => exact ⟨txn, rfl, by cases is_write <;> simp [Record.append]⟩
  | cons obj objs ih =>
      rw [List.length_cons] at hroom
      have hlt : ((record txn).objs is_write).length < MAX_TXN_OBJS := by omega
      obtain ⟨next, hpush, hnext⟩ := pushObj_total hlt obj
      have hflag : flagChar is_write ≠ ',' := by cases is_write <;> decide
      have hend := fieldEnd_writeObjs (flagChar is_write) objs hrest
      have hturn := parseObjs_writeObj hflag obj hend (scan_d_flagChar is_write hend) txn
      rw [hpush, ok_bind] at hturn
      have hroom' : ((record next).objs is_write).length + objs.length ≤ MAX_TXN_OBJS := by
        rw [hnext, Record.objs_append, List.length_append, List.length_singleton]
        omega
      obtain ⟨txn', hparse, hrecord⟩ := ih next hroom'
      refine ⟨txn', ?_, ?_⟩
      · rw [List.flatMap_cons, List.append_assoc, hturn, hparse]
      · rw [hrecord, hnext, Record.append_append, List.singleton_append]

theorem parse_txn_head (memory : Txn) (id : TxnId) {rest : List Char} (hrest : FieldEnd rest) :
    parse_txn memory (print_u id ++ ',' :: '0' :: rest) = parseObjs rest.tail (memory.restart id 0) := by
  have hend : FieldEnd (',' :: '0' :: rest) := fieldEnd_comma _
  have hskip : skipField (print_u id ++ ',' :: '0' :: rest) = '0' :: rest :=
    skipField_append (comma_not_mem_print_u id) hend
  have hskip' : skipField ('0' :: rest) = rest.tail := @skipField_append ['0'] rest (by decide) hrest
  have hzero : scan_lu ('0' :: rest) = some 0 := by
    rw [scan_lu, scanNumber_digit (by decide) hrest]
    rfl
  simp only [parse_txn, scan_u_print_u id hend.not_isDigit, hskip, hskip', hzero, orFatal_some, ok_bind]
  rfl

-- A row that was written is parsed to what it was written for.
theorem parse_txn_writeRow (memory t : Txn) (haux : t.aux_data = 0) :
    ∃ txn, parse_txn memory (writeRow t) = .ok txn ∧ record txn = record t := by
  have hrow : writeRow t = print_u t.id ++ ',' :: '0' :: (t.readList.flatMap (writeObj '0') ++
      t.writeList.flatMap (writeObj '1')) := by
    simp [writeRow]
  have hend : FieldEnd (t.writeList.flatMap (writeObj '1')) := by
    simpa using fieldEnd_writeObjs '1' t.writeList fieldEnd_nil
  have hhead := parse_txn_head memory t.id (fieldEnd_writeObjs '0' t.readList hend)
  -- the reads, then the writes
  have hroom : ((record (memory.restart t.id 0)).objs false).length + t.readList.length ≤
      MAX_TXN_OBJS := by
    simpa [Record.objs] using t.num_reads_le
  obtain ⟨mid, hreads, hmid⟩ := parseObjs_writeObjs false t.readList hend _ hroom
  have hroom' : ((record mid).objs true).length + t.writeList.length ≤ MAX_TXN_OBJS := by
    rw [hmid]
    simpa [Record.objs, Record.append] using t.num_writes_le
  obtain ⟨last, hwrites, hlast⟩ := parseObjs_writeObjs true t.writeList fieldEnd_nil mid hroom'
  rw [List.append_nil] at hwrites
  refine ⟨last, ?_, ?_⟩
  · rw [hrow, hhead]
    exact hreads.trans (hwrites.trans parseObjs_nil)
  · rw [hlast, hmid, record_restart]
    simp [Record.append, record, haux]

theorem mem_writeRow {t : Txn} {c : Char} (h : c ∈ writeRow t) : c = ',' ∨ c.isDigit = true := by
  have hobj {flag : Char} (hflag : flag.isDigit = true) {objs : List ObjId}
      (hc : c ∈ objs.flatMap (writeObj flag)) : c = ',' ∨ c.isDigit = true := by
    obtain ⟨obj, -, hc⟩ := List.mem_flatMap.mp hc
    simp only [writeObj, List.mem_cons, List.mem_append, List.not_mem_nil, or_false] at hc
    rcases hc with rfl | hc | rfl | rfl
    · exact Or.inl rfl
    · exact Or.inr (isDigit_of_mem_print_u hc)
    · exact Or.inl rfl
    · exact Or.inr hflag
  simp only [writeRow, List.mem_append, List.mem_cons, List.not_mem_nil, or_false] at h
  rcases h with ((hid | rfl | rfl) | hreads) | hwrites
  · exact Or.inr (isDigit_of_mem_print_u hid)
  · exact Or.inl rfl
  · exact Or.inr (by decide)
  · exact hobj (by decide) hreads
  · exact hobj (by decide) hwrites

theorem not_mem_writeRow (t : Txn) {c : Char} (hcomma : c ≠ ',') (hdigit : ¬ c.isDigit) :
    c ∉ writeRow t := fun h => (mem_writeRow h).elim hcomma hdigit

theorem writeObjs_length (flag : Char) (objs : List ObjId) :
    (objs.flatMap (writeObj flag)).length ≤ 13 * objs.length := by
  induction objs with
  | nil => exact Nat.le_refl _
  | cons obj objs ih =>
      have hprint := print_u_length obj
      simp only [List.flatMap_cons, List.length_append, writeObj, List.length_cons, List.length_nil]
      omega

-- A row and the NUL behind its newline fit into a buffer.
theorem writeRow_length (t : Txn) : (writeRow t).length < bufSize := by
  have hid := print_u_length t.id
  have hreads := writeObjs_length '0' t.readList
  have hwrites := writeObjs_length '1' t.writeList
  have hnum_reads : t.readList.length ≤ 16 := t.readList_length.trans_le t.num_reads_le
  have hnum_writes : t.writeList.length ≤ 16 := t.writeList_length.trans_le t.num_writes_le
  simp only [writeRow, bufSize, List.length_append, List.length_cons, List.length_nil]
  omega

theorem writeRow_ne_nil (t : Txn) : writeRow t ≠ [] := by
  simp [writeRow]

theorem cString_writeRow (t : Txn) : cString (writeRow t ++ ['\n']) = writeRow t ++ ['\n'] := by
  refine cString_of_not_mem ?_
  rw [List.mem_append, not_or]
  exact ⟨not_mem_writeRow t (by decide) (by decide), by decide⟩

theorem cutLine_writeRow (t : Txn) : cutLine (writeRow t ++ ['\n']) = writeRow t := by
  rw [cutLine, cString_writeRow, List.takeWhile_append_of_pos]
  · rw [List.takeWhile_cons_of_neg (by decide), List.append_nil]
  · intro c hc
    refine decide_eq_true ?_
    rintro rfl
    exact not_mem_writeRow t (by decide) (by decide) hc

theorem lines_write_csv (wl : Workload) :
    lines bufSize (write_csv wl) = (List.ofFn wl.txns).map fun t => writeRow t ++ ['\n'] := by
  have hrows : ∀ row ∈ (List.ofFn wl.txns).map writeRow, '\n' ∉ row ∧ row.length < bufSize := by
    intro row hrow
    obtain ⟨t, -, rfl⟩ := List.mem_map.mp hrow
    exact ⟨not_mem_writeRow t (by decide) (by decide), writeRow_length t⟩
  have hlines := lines_rows hrows
  rwa [List.flatMap_map, List.map_map] at hlines

-- Every row is counted.
theorem count_lines_write_csv (wl : Workload) : count_lines (write_csv wl) = wl.num_txns := by
  rw [count_lines, lines_write_csv, List.countP_map, List.countP_eq_length.mpr, List.length_ofFn]
  intro t _
  have hpos := List.length_pos_iff.mpr (writeRow_ne_nil t)
  simp only [Function.comp_apply, cString_writeRow, List.length_append, List.length_singleton,
    decide_eq_true_eq]
  omega

theorem parseLines_writeRows (memory : ℕ → Txn) (i : ℕ) (txns : List Txn)
    (haux : ∀ t ∈ txns, t.aux_data = 0) :
    ∃ txns', parseLines memory i (txns.map fun t => writeRow t ++ ['\n']) = .ok txns' ∧
      txns'.map record = txns.map record := by
  induction txns generalizing i with
  | nil => exact ⟨[], rfl, rfl⟩
  | cons t txns ih =>
      obtain ⟨haux, hrest⟩ := List.forall_mem_cons.mp haux
      obtain ⟨t', htxn, hrecord⟩ := parse_txn_writeRow (memory i) t haux
      obtain ⟨txns', htxns, hrecords⟩ := ih (i + 1) hrest
      refine ⟨t' :: txns', ?_, ?_⟩
      · rw [List.map_cons, parseLines, cutLine_writeRow, if_neg (writeRow_ne_nil t), htxn, ok_bind, htxns]
        rfl
      · rw [List.map_cons, List.map_cons, hrecord, hrecords]

theorem ofFn_get_cast {α β : Type*} (f : α → β) {n : ℕ} {l : List α} (h : n = l.length) :
    List.ofFn (fun i : Fin n => f (l.get (i.cast h))) = l.map f := by
  subst h
  rw [← Function.comp_def f, ← List.map_ofFn]
  exact congrArg (List.map f) (List.ofFn_get l)

-- What was written is read back, whatever was in the memory it is read into.
theorem parse_write_csv (memory : ℕ → Txn) (wl : Workload) (haux : ∀ i, (wl.txns i).aux_data = 0) :
    ∃ wl', parse_workload_csv memory (write_csv wl) = .ok wl' ∧ wl'.records = wl.records := by
  have haux' : ∀ t ∈ List.ofFn wl.txns, t.aux_data = 0 := by
    intro t ht
    obtain ⟨i, rfl⟩ := List.mem_ofFn.mp ht
    exact haux i
  obtain ⟨txns, hparse, hrecords⟩ := parseLines_writeRows memory 0 (List.ofFn wl.txns) haux'
  have hcount := count_lines_write_csv wl
  have hlt : count_lines (write_csv wl) < 2 ^ 31 := hcount.trans_lt wl.num_txns_lt
  have hlength : txns.length = count_lines (write_csv wl) := by
    have hsame := congrArg List.length hrecords
    rwa [List.length_map, List.length_map, List.length_ofFn, ← hcount] at hsame
  refine ⟨⟨count_lines (write_csv wl), fun i => txns.get (i.cast hlength.symm), hlt⟩, ?_, ?_⟩
  · rw [parse_workload_csv, dif_pos hlt, lines_write_csv, hparse, ok_bind, dif_pos hlength]
    rfl
  · have hsource : wl.records = (List.ofFn wl.txns).map record := by
      rw [List.map_ofFn]
      rfl
    rw [hsource, ← hrecords]
    exact ofFn_get_cast record hlength.symm

-- Both formats give back the transactions that were written, in their order.
theorem parse_write (memory : ℕ → Txn) (wl : Workload) (haux : ∀ i, (wl.txns i).aux_data = 0) :
    (∃ wl', parse_workload_csv memory (write_csv wl) = .ok wl' ∧
      wl'.num_txns = wl.num_txns ∧ wl'.records = wl.records) ∧
    (∃ wl', parse_workload_bin (write_bin MAX_TXN_OBJS wl) = .ok wl' ∧
      wl'.num_txns = wl.num_txns ∧ wl'.records = wl.records) := by
  constructor
  · obtain ⟨wl', hparse, hrecords⟩ := parse_write_csv memory wl haux
    have hlength := congrArg List.length hrecords
    rw [Workload.records, Workload.records, List.length_ofFn, List.length_ofFn] at hlength
    exact ⟨wl', hparse, hlength, hrecords⟩
  · exact ⟨wl, parse_write_bin wl, rfl, rfl⟩

theorem parse_write_threeTxns : (∀ i, (threeTxns.txns i).aux_data = 0) ∧
    ((∃ wl', parse_workload_csv (fun _ => Txn.writing 1 1) (write_csv threeTxns) = .ok wl' ∧
        wl'.num_txns = threeTxns.num_txns ∧ wl'.records = threeTxns.records) ∧
      (∃ wl', parse_workload_bin (write_bin MAX_TXN_OBJS threeTxns) = .ok wl' ∧
        wl'.num_txns = threeTxns.num_txns ∧ wl'.records = threeTxns.records)) :=
  have haux : ∀ i, (threeTxns.txns i).aux_data = 0 := fun _ => rfl
  ⟨haux, parse_write (fun _ => Txn.writing 1 1) threeTxns haux⟩

end Puppetmaster.Runner
