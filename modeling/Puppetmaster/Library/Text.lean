import Mathlib.Algebra.Order.Ring.Nat
import Mathlib.Data.List.TakeWhile

namespace Puppetmaster.Library

-- Text files and numbers in them, as stdio.h has them. A string ends before its first NUL.

def cString (buf : List Char) : List Char := buf.takeWhile (· ≠ '\x00')

-- fgets for a buffer of `size + 1` characters: up to the end of the line, which it takes with it,
-- or as much as there is place for. The second part is the rest of the file.
def fgets : ℕ → List Char → List Char × List Char
  | 0, f => ([], f)
  | _ + 1, [] => ([], [])
  | size + 1, c :: f =>
      if c = '\n' then (['\n'], f)
      else ((c :: (fgets size f).1), (fgets size f).2)

-- What the buffer holds in turn, in a loop that ends when fgets finds nothing. Each turn takes a
-- character off the file, so the length of it is enough fuel.
def fgetsLoop (size : ℕ) : ℕ → List Char → List (List Char)
  | 0, _ => []
  | fuel + 1, f =>
      if f = [] then [] else (fgets size f).1 :: fgetsLoop size fuel (fgets size f).2

def lines (size : ℕ) (f : List Char) : List (List Char) := fgetsLoop size f.length f

-- A number as sscanf takes it: white space, a sign and digits. What follows is not looked at.
structure Scanned where
  negative : Bool
  magnitude : ℕ
deriving DecidableEq

def isspace (c : Char) : Bool :=
  c = ' ' || c = '\t' || c = '\n' || c = '\x0b' || c = '\x0c' || c = '\r'

def scanSign : List Char → Bool × List Char
  | '-' :: p => (true, p)
  | '+' :: p => (false, p)
  | p => (false, p)

def scanNumber (p : List Char) : Option Scanned :=
  let (negative, p) := scanSign (p.dropWhile isspace)
  let digits := p.takeWhile Char.isDigit
  if digits = [] then none else some ⟨negative, Nat.ofDigitChars 10 digits 0⟩

-- strtoul gives ULONG_MAX for what is too large and takes the negative of a number with a sign.
def Scanned.toUnsigned (x : Scanned) : BitVec 64 :=
  if 2 ^ 64 ≤ x.magnitude then BitVec.allOnes 64
  else if x.negative then - BitVec.ofNat 64 x.magnitude
  else BitVec.ofNat 64 x.magnitude

-- strtol gives LONG_MIN or LONG_MAX for what is too small or too large.
def Scanned.toSigned (x : Scanned) : BitVec 64 :=
  if x.negative then
    if 2 ^ 63 ≤ x.magnitude then BitVec.intMin 64 else - BitVec.ofNat 64 x.magnitude
  else
    if 2 ^ 63 ≤ x.magnitude then BitVec.intMax 64 else BitVec.ofNat 64 x.magnitude

-- The conversions %u, %lu and %d
def scan_u (p : List Char) : Option (BitVec 32) := (scanNumber p).map fun x => x.toUnsigned.setWidth 32

def scan_lu (p : List Char) : Option (BitVec 64) := (scanNumber p).map Scanned.toUnsigned

def scan_d (p : List Char) : Option (BitVec 32) := (scanNumber p).map fun x => x.toSigned.setWidth 32

-- A number as %0d and %u print it.
def decimal (n : ℕ) : List Char := Nat.toDigits 10 n

-- %u of printf
def print_u (n : BitVec 32) : List Char := Nat.toDigits 10 n.toNat

theorem cString_of_not_mem {buf : List Char} (h : '\x00' ∉ buf) : cString buf = buf := by
  refine List.takeWhile_eq_self_iff.mpr fun c hc => decide_eq_true ?_
  rintro rfl
  exact h hc

-- A line for which there is place is read whole.
theorem fgets_line {size : ℕ} {line : List Char} (hline : '\n' ∉ line) (hsize : line.length < size)
    (rest : List Char) : fgets size (line ++ '\n' :: rest) = (line ++ ['\n'], rest) := by
  induction line generalizing size with
  | nil =>
      cases size with
      | zero => exact absurd hsize (Nat.not_lt_zero _)
      | succ size => simp [fgets]
  | cons c line ih =>
      cases size with
      | zero => exact absurd hsize (Nat.not_lt_zero _)
      | succ size =>
          rw [List.mem_cons, not_or] at hline
          obtain ⟨hc, hline⟩ := hline
          rw [List.cons_append, fgets, if_neg (Ne.symm hc), ih hline (Nat.lt_of_succ_lt_succ hsize)]
          rfl

theorem fgetsLoop_rows {size fuel : ℕ} {rows : List (List Char)}
    (hrows : ∀ row ∈ rows, '\n' ∉ row ∧ row.length < size) (hfuel : rows.length ≤ fuel) :
    fgetsLoop size fuel (rows.flatMap (· ++ ['\n'])) = rows.map (· ++ ['\n']) := by
  induction rows generalizing fuel with
  | nil => cases fuel <;> simp [fgetsLoop]
  | cons row rows ih =>
      obtain ⟨⟨hline, hsize⟩, hrows⟩ := List.forall_mem_cons.mp hrows
      cases fuel with
      | zero => exact absurd hfuel (Nat.not_succ_le_zero _)
      | succ fuel =>
          have hfgets := fgets_line hline hsize (rows.flatMap (· ++ ['\n']))
          rw [List.flatMap_cons, List.append_assoc, List.singleton_append, fgetsLoop,
            if_neg (by simp), hfgets, ih hrows (Nat.le_of_succ_le_succ hfuel), List.map_cons]

-- A file of lines for which there is place is read line by line.
theorem lines_rows {size : ℕ} {rows : List (List Char)}
    (hrows : ∀ row ∈ rows, '\n' ∉ row ∧ row.length < size) :
    lines size (rows.flatMap (· ++ ['\n'])) = rows.map (· ++ ['\n']) := by
  refine fgetsLoop_rows hrows ?_
  clear hrows
  induction rows with
  | nil => exact Nat.zero_le _
  | cons row rows ih =>
      rw [List.flatMap_cons, List.length_append, List.length_append, List.length_singleton,
        List.length_cons]
      omega

theorem dropWhile_append_eq {p : Char → Bool} {front rest : List Char} (hfront : ∀ c ∈ front, p c = true)
    (hrest : ∀ c ∈ rest.head?, ¬ p c) : (front ++ rest).dropWhile p = rest := by
  rw [List.dropWhile_append_of_pos hfront]
  cases rest with
  | nil => rfl
  | cons c rest => exact List.dropWhile_cons_of_neg (hrest c rfl)

theorem takeWhile_append_eq {p : Char → Bool} {front rest : List Char} (hfront : ∀ c ∈ front, p c = true)
    (hrest : ∀ c ∈ rest.head?, ¬ p c) : (front ++ rest).takeWhile p = front := by
  rw [List.takeWhile_append_of_pos hfront]
  cases rest with
  | nil => rw [List.takeWhile_nil, List.append_nil]
  | cons c rest => rw [List.takeWhile_cons_of_neg (hrest c rfl), List.append_nil]

theorem isDigit_of_mem_decimal {n : ℕ} {c : Char} (h : c ∈ decimal n) : c.isDigit = true :=
  Nat.isDigit_of_mem_toDigits (by decide) (by decide) h

theorem decimal_ne_nil (n : ℕ) : decimal n ≠ [] := Nat.toDigits_ne_nil

theorem decimal_length {n k : ℕ} (hk : 0 < k) (hn : n < 10 ^ k) : (decimal n).length ≤ k :=
  (Nat.length_toDigits_le_iff (by decide) hk).mpr hn

theorem isspace_of_isDigit {c : Char} (h : c.isDigit = true) : isspace c = false := by
  refine Bool.eq_false_iff.mpr fun hspace => ?_
  simp only [isspace, Bool.or_eq_true, decide_eq_true_eq] at hspace
  rcases hspace with ((((rfl | rfl) | rfl) | rfl) | rfl) | rfl <;> revert h <;> decide

theorem scanSign_of_isDigit {c : Char} (h : c.isDigit = true) (p : List Char) :
    scanSign (c :: p) = (false, c :: p) := by
  unfold scanSign
  split
  · next heq =>
      obtain ⟨rfl, -⟩ := List.cons.inj heq
      exact absurd h (by decide)
  · next heq =>
      obtain ⟨rfl, -⟩ := List.cons.inj heq
      exact absurd h (by decide)
  · rfl

-- Digits are scanned up to what follows them.
theorem scanNumber_digits {digits rest : List Char} (hne : digits ≠ [])
    (hdigits : ∀ c ∈ digits, c.isDigit = true) (hrest : ∀ c ∈ rest.head?, ¬ c.isDigit) :
    scanNumber (digits ++ rest) = some ⟨false, Nat.ofDigitChars 10 digits 0⟩ := by
  have htake : (digits ++ rest).takeWhile Char.isDigit = digits := takeWhile_append_eq hdigits hrest
  cases digits with
  | nil => exact absurd rfl hne
  | cons d ds =>
      have hd := hdigits d List.mem_cons_self
      rw [List.cons_append] at htake ⊢
      simp only [scanNumber, List.dropWhile_cons, isspace_of_isDigit hd, Bool.false_eq_true, if_false,
        scanSign_of_isDigit hd, htake, reduceCtorEq]

theorem scanNumber_decimal (n : ℕ) {rest : List Char} (hrest : ∀ c ∈ rest.head?, ¬ c.isDigit) :
    scanNumber (decimal n ++ rest) = some ⟨false, n⟩ := by
  rw [scanNumber_digits (decimal_ne_nil n) (fun _ hc => isDigit_of_mem_decimal hc) hrest, decimal,
    Nat.ofDigitChars_ten_toDigits]

theorem isDigit_of_mem_print_u {n : BitVec 32} {c : Char} (h : c ∈ print_u n) : c.isDigit = true :=
  isDigit_of_mem_decimal h

theorem print_u_length (n : BitVec 32) : (print_u n).length ≤ 10 :=
  decimal_length (by decide) (n.isLt.trans (by decide))

theorem scan_u_print_u (n : BitVec 32) {rest : List Char} (hrest : ∀ c ∈ rest.head?, ¬ c.isDigit) :
    scan_u (print_u n ++ rest) = some n := by
  have hscan : scanNumber (print_u n ++ rest) = some ⟨false, n.toNat⟩ := scanNumber_decimal n.toNat hrest
  have hsmall : ¬ 2 ^ 64 ≤ n.toNat := Nat.not_le.mpr (n.isLt.trans (by decide))
  rw [scan_u, hscan, Option.map_some, Scanned.toUnsigned, if_neg hsmall]
  simp

end Puppetmaster.Library
