import Puppetmaster.Library.Text

namespace Puppetmaster.Library

-- sscanf with more than one directive: a character, white space, %lu and %s with a width.
inductive Directive where
  | char (c : Char)
  | space
  | lu
  | s (width : ℕ)

inductive Assigned where
  | number (n : BitVec 64)
  | word (w : List Char)
deriving DecidableEq

def text (t : String) : List Directive :=
  t.toList.map fun c => if isspace c then .space else .char c

-- A number and what stands behind it.
def takeNumber (p : List Char) : Option (Scanned × List Char) :=
  (scanNumber p).map fun x => (x, (scanSign (p.dropWhile isspace)).2.dropWhile Char.isDigit)

-- What is assigned up to the first directive that finds nothing.
def sscanf : List Directive → List Char → List Assigned
  | [], _ => []
  | .char _ :: _, [] => []
  | .char c :: format, d :: p => if d = c then sscanf format p else []
  | .space :: format, p => sscanf format (p.dropWhile isspace)
  | .lu :: format, p =>
      match takeNumber p with
      | some (x, p) => .number x.toUnsigned :: sscanf format p
      | none => []
  | .s width :: format, p =>
      let p := p.dropWhile isspace
      let w := (p.takeWhile fun c => !isspace c).take width
      if w = [] then [] else .word w :: sscanf format (p.drop w.length)

theorem takeNumber_decimal (n : ℕ) {rest : List Char} (hrest : ∀ c ∈ rest.head?, ¬ c.isDigit) :
    takeNumber (decimal n ++ rest) = some (⟨false, n⟩, rest) := by
  have hdrop : ((decimal n ++ rest).dropWhile Char.isDigit) = rest :=
    dropWhile_append_eq (fun _ hc => isDigit_of_mem_decimal hc) hrest
  rw [takeNumber, scanNumber_decimal n hrest]
  have hdigits : ∀ c ∈ decimal n, c.isDigit = true := fun _ hc => isDigit_of_mem_decimal hc
  cases hdecimal : decimal n with
  | nil => exact absurd hdecimal (decimal_ne_nil n)
  | cons d ds =>
      rw [hdecimal] at hdrop hdigits
      have hd := hdigits d List.mem_cons_self
      rw [List.cons_append] at hdrop ⊢
      rw [List.dropWhile_cons_of_neg (by rw [isspace_of_isDigit hd]; decide), scanSign_of_isDigit hd,
        hdrop]
      rfl

section

-- White space in the text is one character, and is not at its end.
def spaced : List Char → Bool
  | [] => true
  | [c] => !isspace c
  | c :: d :: t => (!isspace c || !isspace d) && spaced (d :: t)

variable (format : List Directive) (p : List Char)

theorem sscanf_char (c : Char) : sscanf (.char c :: format) (c :: p) = sscanf format p := by
  rw [sscanf, if_pos rfl]

theorem sscanf_space {c d : Char} (hc : isspace c = true) (hd : isspace d = false) :
    sscanf (.space :: format) (c :: d :: p) = sscanf format (d :: p) := by
  rw [sscanf, List.dropWhile_cons_of_pos hc, List.dropWhile_cons_of_neg (by rw [hd]; decide)]

-- A text that was printed is scanned by the same text of the format.
theorem sscanf_text {t : String} (ht : spaced t.toList = true) :
    sscanf (text t ++ format) (t.toList ++ p) = sscanf format p := by
  unfold text
  generalize t.toList = t at ht ⊢
  induction t with
  | nil => rfl
  | cons c t ih =>
      rw [List.map_cons, List.cons_append, List.cons_append]
      cases hc : isspace c with
      | false =>
          have hrest : spaced t = true := by
            cases t with
            | nil => rfl
            | cons d t => exact (Bool.and_eq_true_iff.mp ht).2
          rw [if_neg Bool.false_ne_true, sscanf_char]
          exact ih hrest
      | true =>
          cases t with
          | nil =>
              rw [spaced, hc] at ht
              cases ht
          | cons d t =>
              obtain ⟨hd, hrest⟩ := Bool.and_eq_true_iff.mp ht
              rw [hc, Bool.not_true, Bool.false_or, Bool.not_eq_true'] at hd
              rw [if_pos rfl, List.cons_append, sscanf_space _ _ hc hd]
              exact ih hrest

theorem sscanf_lu {n : ℕ} (hn : n < 2 ^ 64) {rest : List Char} (hrest : ∀ c ∈ rest.head?, ¬ c.isDigit) :
    sscanf (.lu :: format) (decimal n ++ rest) =
      .number (BitVec.ofNat 64 n) :: sscanf format rest := by
  have hvalue : (⟨false, n⟩ : Scanned).toUnsigned = BitVec.ofNat 64 n := by
    rw [Scanned.toUnsigned, if_neg (Nat.not_le.mpr hn)]
    rfl
  rw [sscanf, takeNumber_decimal n hrest]
  simp only [hvalue]

theorem sscanf_s {width : ℕ} {w rest : List Char} (hne : w ≠ []) (hw : ∀ c ∈ w, isspace c = false)
    (hwidth : w.length ≤ width) (hrest : ∀ c ∈ rest.head?, isspace c = true) :
    sscanf (.s width :: format) (w ++ rest) = .word w :: sscanf format rest := by
  have hdrop : (w ++ rest).dropWhile isspace = w ++ rest := by
    cases w with
    | nil => exact absurd rfl hne
    | cons c w =>
        rw [List.cons_append]
        exact List.dropWhile_cons_of_neg (by rw [hw c List.mem_cons_self]; decide)
  have htake : (w ++ rest).takeWhile (fun c => !isspace c) = w := by
    refine takeWhile_append_eq (fun c hc => by rw [hw c hc]; rfl) fun c hc => ?_
    rw [hrest c hc]
    decide
  simp only [sscanf, hdrop, htake, List.take_of_length_le hwidth, if_neg hne, List.drop_left]

theorem sscanf_space_s {width : ℕ} {w rest : List Char} (hne : w ≠ [])
    (hw : ∀ c ∈ w, isspace c = false) (hwidth : w.length ≤ width)
    (hrest : ∀ c ∈ rest.head?, isspace c = true) :
    sscanf (.space :: .s width :: format) (' ' :: (w ++ rest)) = .word w :: sscanf format rest := by
  rw [← sscanf_s format hne hw hwidth hrest]
  cases w with
  | nil => exact absurd rfl hne
  | cons c w => exact sscanf_space _ _ rfl (hw c List.mem_cons_self)

end

end Puppetmaster.Library
