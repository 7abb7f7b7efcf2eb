import Mathlib.Data.Fin.Tuple.Basic
import Mathlib.Data.List.OfFn

namespace Puppetmaster.Library

-- 32-bit words in a stream of bytes, the lowest byte first.

abbrev Byte := BitVec 8

abbrev Word := BitVec 32

def writeWord (w : Word) : List Byte :=
  [w.extractLsb' 0 8, w.extractLsb' 8 8, w.extractLsb' 16 8, w.extractLsb' 24 8]

def readWord : List Byte → Option (Word × List Byte)
  | b₀ :: b₁ :: b₂ :: b₃ :: rest => some (b₃ ++ b₂ ++ b₁ ++ b₀, rest)
  | _ => none

def readWords : (k : ℕ) → List Byte → Option ((Fin k → Word) × List Byte)
  | 0, bytes => some (Fin.elim0, bytes)
  | k + 1, bytes =>
      (readWord bytes).bind fun (w, bytes) =>
        (readWords k bytes).map fun (ws, bytes) => (Fin.cons w ws, bytes)

@[simp] theorem writeWord_length (w : Word) : (writeWord w).length = 4 := rfl

@[simp] theorem flatMap_writeWord_length (ws : List Word) :
    (ws.flatMap writeWord).length = 4 * ws.length := by
  induction ws with
  | nil => rfl
  | cons w ws ih =>
      rw [List.flatMap_cons, List.length_append, writeWord_length, ih, List.length_cons]
      omega

@[simp] theorem readWord_writeWord (w : Word) (rest : List Byte) :
    readWord (writeWord w ++ rest) = some (w, rest) := by
  have hbytes : (w.extractLsb' 24 8 ++ w.extractLsb' 16 8 ++ w.extractLsb' 8 8 ++
      w.extractLsb' 0 8 : Word) = w := by
    rw [BitVec.extractLsb'_append_extractLsb'_eq_extractLsb' (by rfl),
      BitVec.extractLsb'_append_extractLsb'_eq_extractLsb' (by rfl),
      BitVec.extractLsb'_append_extractLsb'_eq_extractLsb' (by rfl)]
    exact BitVec.extractLsb'_eq_self
  simp [writeWord, readWord, hbytes]

theorem readWord_length {bytes rest : List Byte} {w : Word}
    (h : readWord bytes = some (w, rest)) : bytes.length = 4 + rest.length := by
  unfold readWord at h
  split at h
  · cases h
    simp only [List.length_cons]
    omega
  · cases h

-- Reading gives back what was written and stops behind it.
theorem readWords_flatMap {k : ℕ} (ws : Fin k → Word) (rest : List Byte) :
    readWords k ((List.ofFn ws).flatMap writeWord ++ rest) = some (ws, rest) := by
  induction k with
  | zero => simp [readWords, List.ofFn_zero, eq_iff_true_of_subsingleton]
  | succ k ih =>
      rw [List.ofFn_succ, List.flatMap_cons, List.append_assoc, readWords, readWord_writeWord]
      have htail := ih (Fin.tail ws)
      simp only [Option.bind_some]
      rw [show (fun i : Fin k => ws i.succ) = Fin.tail ws from rfl, htail, Option.map_some,
        Fin.cons_self_tail]

theorem readWords_length {k : ℕ} {bytes rest : List Byte} {ws : Fin k → Word}
    (h : readWords k bytes = some (ws, rest)) : bytes.length = 4 * k + rest.length := by
  induction k generalizing bytes rest with
  | zero =>
      cases h
      simp
  | succ k ih =>
      rw [readWords, Option.bind_eq_some_iff] at h
      obtain ⟨⟨w, bytes'⟩, hword, h⟩ := h
      obtain ⟨⟨ws', rest'⟩, hwords, h⟩ := Option.map_eq_some_iff.mp h
      cases h
      rw [readWord_length hword, ih hwords]
      omega

end Puppetmaster.Library
