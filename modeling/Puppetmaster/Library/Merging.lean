import Puppetmaster.Library.Fallible
import Mathlib.Data.Set.Pairwise.Basic

namespace Puppetmaster.Library

-- Values that stand for sets of items, and are merged when they are found compatible. Whoever is
-- found compatible stands for items that are apart, and can be merged.
structure Merger (ε S ι : Type) where
  compat : S → S → Except ε Bool
  merge : S → S → Except ε S
  Stands : S → Set ι → Prop
  Apart : ι → ι → Prop
  symm : ∀ {i j}, Apart i j → Apart j i
  compat_ok : ∀ {s t A B}, Stands s A → Stands t B → ∃ b, compat s t = .ok b
  apart_of_compat : ∀ {s t A B}, Stands s A → Stands t B → compat s t = .ok true →
    ∀ i ∈ A, ∀ j ∈ B, Apart i j
  merge_ok : ∀ {s t A B}, Stands s A → Stands t B → compat s t = .ok true →
    ∃ u, merge s t = .ok u ∧ Stands u (A ∪ B)

-- itertools.batched for pairs; the last one may be short.
def batched {α : Type} : List α → List (List α)
  | a :: b :: rest => [a, b] :: batched rest
  | [a] => [[a]]
  | [] => []

-- What holds of all that play holds of all winners, and what is not lost by winning as the first
-- of a pair holds of the first winner.
theorem mapM_batched {ε S : Type} {play : List S → Except ε S} {P Q : S → Prop}
    (hplay : ∀ s t, P s → P t → ∃ u, play [s, t] = .ok u ∧ P u ∧ (Q s → Q u)) {m : ℕ} {ss : List S}
    (hlength : ss.length = 2 * m) (hP : ∀ s ∈ ss, P s) :
    ∃ us, (batched ss).mapM play = .ok us ∧ us.length = m ∧ (∀ u ∈ us, P u) ∧
      ((∀ s ∈ ss.head?, Q s) → ∀ u ∈ us.head?, Q u) := by
  induction m generalizing ss with
  | zero =>
      obtain rfl := List.length_eq_zero_iff.mp hlength
      refine ⟨[], rfl, rfl, ?_, fun _ => ?_⟩
      · intro u hu
        cases hu
      · intro u hu
        cases hu
  | succ m ih =>
      match ss with
      | [] => cases hlength
      | [s] =>
          rw [List.length_singleton] at hlength
          omega
      | s :: t :: rest =>
          obtain ⟨hs, ht, hrest⟩ : P s ∧ P t ∧ ∀ s ∈ rest, P s := by
            simpa only [List.forall_mem_cons] using hP
          have hlength : rest.length = 2 * m := by
            rw [List.length_cons, List.length_cons] at hlength
            omega
          obtain ⟨u, hu, hPu, hQ⟩ := hplay s t hs ht
          obtain ⟨us, hus, hcount, hPus, -⟩ := ih hlength hrest
          refine ⟨u :: us, ?_, congrArg (· + 1) hcount, List.forall_mem_cons.mpr ⟨hPu, hPus⟩, fun h v hv => ?_⟩
          · rw [batched, List.mapM_cons, hu, ok_bind, hus]
            rfl
          · obtain rfl := Option.some.inj hv
            exact hQ (h s rfl)

namespace Merger

variable {ε S ι : Type} (m : Merger ε S ι) {s t : S} {A B : Set ι}

def winner (s t : S) : Except ε S := do
  if ← m.compat s t then m.merge s t else return s

def gather (x : S × List S) (s : S) : Except ε (S × List S) := do
  if ← m.compat x.1 s then return (← m.merge x.1 s, x.2 ++ [s]) else return x

-- The items of a winner are apart, if those of both were.
theorem stands_winner (hs : m.Stands s A) (ht : m.Stands t B) (hA : A.Pairwise m.Apart)
    (hB : B.Pairwise m.Apart) :
    ∃ u C, m.winner s t = .ok u ∧ m.Stands u C ∧ C.Pairwise m.Apart ∧ A ⊆ C := by
  obtain ⟨b, hb⟩ := m.compat_ok hs ht
  unfold winner
  rw [hb, ok_bind]
  cases b with
  | false => exact ⟨s, A, rfl, hs, hA, subset_rfl⟩
  | true =>
      have happart := m.apart_of_compat hs ht hb
      obtain ⟨u, hu, hstands⟩ := m.merge_ok hs ht hb
      refine ⟨u, A ∪ B, hu, hstands, ?_, Set.subset_union_left⟩
      rw [Set.pairwise_union]
      exact ⟨hA, hB, fun i hi j hj _ => ⟨happart i hi j hj, m.symm (happart i hi j hj)⟩⟩

theorem gather_eq_self (h : m.compat s t = .ok false) (taken : List S) :
    m.gather (s, taken) t = .ok (s, taken) := by
  rw [gather, h]
  rfl

theorem gather_eq_merge (h : m.compat s t = .ok true) {u : S} (hu : m.merge s t = .ok u)
    (taken : List S) : m.gather (s, taken) t = .ok (u, taken ++ [t]) := by
  rw [gather, h, ok_bind, if_pos rfl, hu]
  rfl

-- One pass over the values that stand for one item each. Those that are taken are apart, and one
-- that is left out was found incompatible with what had been taken before it.
theorem foldlM_gather {f : ι → S} {before : ι → ι → Prop} {is : List ι} (hbefore : is.Pairwise before)
    (hf : ∀ i, m.Stands (f i) {i}) (hs : m.Stands s A) (taken : List S) :
    ∃ (js : List ι) (s' : S), (is.map f).foldlM m.gather (s, taken) = .ok (s', taken ++ js.map f) ∧ js.Sublist is ∧
      (∀ i ∈ A, ∀ j ∈ js, m.Apart i j) ∧ js.Pairwise m.Apart ∧
      ∀ i ∈ is, i ∉ js → ∃ t B, m.Stands t B ∧ m.compat t (f i) = .ok false ∧
        ∀ a ∈ B, a ∈ A ∨ (a ∈ js ∧ before a i) := by
  induction is generalizing s A taken with
  | nil =>
      refine ⟨[], s, ?_, List.Sublist.refl [], ?_, List.Pairwise.nil, ?_⟩
      · rw [List.map_nil, List.foldlM_nil, List.append_nil]
        rfl
      · intro _ _ _ h
        cases h
      · intro _ h
        cases h
  | cons i is ih =>
      obtain ⟨hi, hbefore⟩ := List.pairwise_cons.mp hbefore
      obtain ⟨b, hb⟩ := m.compat_ok hs (hf i)
      rw [List.map_cons, List.foldlM_cons]
      cases b with
      | false =>
          rw [m.gather_eq_self hb, ok_bind]
          obtain ⟨js, s', hfold, hsub, hA, hjs, hout⟩ := ih hbefore hs taken
          refine ⟨js, s', hfold, hsub.cons i, hA, hjs, List.forall_mem_cons.mpr ⟨fun _ => ?_, hout⟩⟩
          exact ⟨s, A, hs, hb, fun a ha => Or.inl ha⟩
      | true =>
          obtain ⟨u, hu, hstands⟩ := m.merge_ok hs (hf i) hb
          rw [m.gather_eq_merge hb hu, ok_bind]
          have happart := m.apart_of_compat hs (hf i) hb
          obtain ⟨js, s', hfold, hsub, hA, hjs, hout⟩ := ih hbefore hstands (taken ++ [f i])
          refine ⟨i :: js, s', ?_, hsub.cons_cons i, fun a ha => ?_, ?_, ?_⟩
          · rw [hfold, List.append_assoc]
            rfl
          · exact List.forall_mem_cons.mpr ⟨happart a ha i rfl, hA a (Set.mem_union_left _ ha)⟩
          · exact List.pairwise_cons.mpr ⟨hA i (Set.mem_union_right _ rfl), hjs⟩
          · refine List.forall_mem_cons.mpr ⟨fun h => absurd List.mem_cons_self h, fun k hk hnot => ?_⟩
            obtain ⟨t, B, ht, hcompat, hB⟩ := hout k hk fun h => hnot (List.mem_cons_of_mem i h)
            refine ⟨t, B, ht, hcompat, fun a ha => ?_⟩
            rcases hB a ha with (haA | rfl) | ⟨hajs, hak⟩
            · exact Or.inl haA
            · exact Or.inr ⟨List.mem_cons_self, hi k hk⟩
            · exact Or.inr ⟨List.mem_cons_of_mem i hajs, hak⟩

end Merger

end Puppetmaster.Library
