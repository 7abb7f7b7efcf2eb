import Puppetmaster.Library.WordStream
import Mathlib.Data.List.Infix
import Mathlib.Logic.Equiv.Defs

namespace Puppetmaster.Library

-- How values of one type stand in a stream of bytes, where all of them take the same place.
structure Layout (α : Type) where
  size : ℕ
  write : α → List Byte
  read : List Byte → Option (α × List Byte)
  size_pos : 0 < size
  write_length : ∀ a, (write a).length = size
  read_write : ∀ a rest, read (write a ++ rest) = some (a, rest)
  read_length : ∀ {bytes a rest}, read bytes = some (a, rest) → bytes.length = size + rest.length
  read_eq_none : ∀ bytes, read bytes = none ↔ bytes.length < size

namespace Layout

variable {α β : Type}

def word : Layout Word where
  size := 4
  write := writeWord
  read := readWord
  size_pos := by decide
  write_length := writeWord_length
  read_write := readWord_writeWord
  read_length := readWord_length
  read_eq_none bytes := by
    cases h : readWord bytes with
    | none =>
        refine iff_of_true rfl (Nat.not_le.mp fun hlen => ?_)
        obtain ⟨front, rest, rfl, hfront⟩ : ∃ front rest, bytes = front ++ rest ∧ front.length = 4 :=
          ⟨bytes.take 4, bytes.drop 4, (List.take_append_drop 4 bytes).symm, List.length_take_of_le hlen⟩
        obtain ⟨b₀, b₁, b₂, b₃, rfl⟩ := List.length_eq_four.mp hfront
        cases h
    | some result =>
        have hlength := readWord_length h
        refine iff_of_false (Option.some_ne_none _) ?_
        omega

def readPair (first : Layout α) (second : Layout β) (bytes : List Byte) :
    Option ((α × β) × List Byte) := do
  let (a, bytes) ← first.read bytes
  let (b, bytes) ← second.read bytes
  return ((a, b), bytes)

theorem readPair_eq_some {first : Layout α} {second : Layout β} {bytes rest : List Byte} {x : α × β} :
    readPair first second bytes = some (x, rest) ↔
      ∃ middle, first.read bytes = some (x.1, middle) ∧ second.read middle = some (x.2, rest) := by
  obtain ⟨a, b⟩ := x
  simp only [readPair, bind, Option.bind_eq_some_iff, Prod.exists, pure, Option.some.injEq,
    Prod.mk.injEq]
  constructor
  · rintro ⟨_, middle, hfirst, _, _, hsecond, ⟨rfl, rfl⟩, rfl⟩
    exact ⟨middle, hfirst, hsecond⟩
  · rintro ⟨middle, hfirst, hsecond⟩
    exact ⟨a, middle, hfirst, b, rest, hsecond, ⟨rfl, rfl⟩, rfl⟩

-- Two values one behind the other.
def pair (first : Layout α) (second : Layout β) : Layout (α × β) where
  size := first.size + second.size
  write x := first.write x.1 ++ second.write x.2
  read := readPair first second
  size_pos := Nat.add_pos_left first.size_pos _
  write_length x := by rw [List.length_append, first.write_length, second.write_length]
  read_write x rest := by
    rw [readPair_eq_some, List.append_assoc]
    exact ⟨second.write x.2 ++ rest, first.read_write x.1 _, second.read_write x.2 rest⟩
  read_length h := by
    obtain ⟨middle, hfirst, hsecond⟩ := readPair_eq_some.mp h
    rw [first.read_length hfirst, second.read_length hsecond, Nat.add_assoc]
  read_eq_none bytes := by
    cases hfirst : first.read bytes with
    | none =>
        have hshort := (first.read_eq_none bytes).mp hfirst
        refine iff_of_true ?_ ?_
        · rw [readPair, hfirst]
          rfl
        · omega
    | some result =>
        obtain ⟨a, middle⟩ := result
        have hlength := first.read_length hfirst
        have hsecond := second.read_eq_none middle
        cases hmiddle : second.read middle with
        | none =>
            have hshort := hsecond.mp hmiddle
            refine iff_of_true ?_ ?_
            · simp only [readPair, hfirst, hmiddle, bind, Option.bind]
            · omega
        | some result =>
            have hrest := second.read_length hmiddle
            refine iff_of_false ?_ ?_
            · simp only [readPair, hfirst, hmiddle, bind, Option.bind, pure, reduceCtorEq,
                not_false_eq_true]
            · omega

def map (layout : Layout α) (e : α ≃ β) : Layout β where
  size := layout.size
  write b := layout.write (e.symm b)
  read bytes := (layout.read bytes).map fun result => (e result.1, result.2)
  size_pos := layout.size_pos
  write_length b := layout.write_length (e.symm b)
  read_write b rest := by rw [layout.read_write, Option.map_some, e.apply_symm_apply]
  read_length h := by
    obtain ⟨⟨a, middle⟩, hread, heq⟩ := Option.map_eq_some_iff.mp h
    cases heq
    exact layout.read_length hread
  read_eq_none bytes := by rw [Option.map_eq_none_iff, layout.read_eq_none]

def joinWords : Word × Word ≃ BitVec 64 where
  toFun w := w.2 ++ w.1
  invFun w := (w.extractLsb' 0 32, w.extractLsb' 32 32)
  left_inv w := by
    refine Prod.ext ?_ ?_
    · exact BitVec.extractLsb'_append_eq_right
    · exact BitVec.extractLsb'_append_eq_left
  right_inv w := by
    show w.extractLsb' 32 32 ++ w.extractLsb' 0 32 = w
    rw [BitVec.extractLsb'_append_extractLsb'_eq_extractLsb' (by rfl)]
    exact BitVec.extractLsb'_eq_self

-- 64 bits, the lower word first.
def doubleWord : Layout (BitVec 64) := (word.pair word).map joinWords

variable (layout : Layout α)

def writeAll (xs : List α) : List Byte := xs.flatMap layout.write

-- fread of at most `n` values; what is there of a value that is cut off is not one.
def fread : ℕ → List Byte → List α
  | 0, _ => []
  | n + 1, bytes =>
      match layout.read bytes with
      | some (a, bytes) => a :: fread n bytes
      | none => []

variable {layout}

theorem writeAll_length (xs : List α) : (layout.writeAll xs).length = xs.length * layout.size := by
  induction xs with
  | nil => simp [writeAll]
  | cons a xs ih =>
      unfold writeAll at ih ⊢
      rw [List.flatMap_cons, List.length_append, layout.write_length, ih, List.length_cons,
        Nat.add_one_mul, Nat.add_comm]

theorem fread_writeAll (xs : List α) (rest : List Byte) :
    layout.fread xs.length (layout.writeAll xs ++ rest) = xs := by
  induction xs with
  | nil => rfl
  | cons a xs ih =>
      unfold writeAll at ih ⊢
      rw [List.flatMap_cons, List.append_assoc, List.length_cons, fread, layout.read_write]
      simp only [ih]

-- There is nothing to read iff nothing is asked for or the first value is cut off.
theorem fread_eq_nil {n : ℕ} {bytes : List Byte} :
    layout.fread n bytes = [] ↔ n = 0 ∨ bytes.length < layout.size := by
  cases n with
  | zero => exact iff_of_true rfl (Or.inl rfl)
  | succ n =>
      rw [fread, ← layout.read_eq_none bytes]
      cases layout.read bytes with
      | none => exact iff_of_true rfl (Or.inr rfl)
      | some result => exact iff_of_false (List.cons_ne_nil _ _) (by simp)

end Layout

end Puppetmaster.Library
