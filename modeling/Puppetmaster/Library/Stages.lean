import Mathlib.Data.Multiset.Range
import Mathlib.Data.List.Infix

namespace Puppetmaster.Library

variable {ε κ : Type*}

-- What a log says about item `n`, oldest first.
def history (key : ε → ℕ) (kind : ε → κ) (log : List ε) (n : ℕ) : List κ :=
  (log.filter fun e => key e = n).map kind

section

variable {key : ε → ℕ} {kind : ε → κ} {log : List ε} {e : ε} {n : ℕ}

theorem history_snoc_self (key : ε → ℕ) (kind : ε → κ) (log : List ε) (e : ε) :
    history key kind (log ++ [e]) (key e) = history key kind log (key e) ++ [kind e] := by
  simp [history]

theorem history_snoc_other (h : key e ≠ n) :
    history key kind (log ++ [e]) n = history key kind log n := by
  simp [history, h]

end

-- A log of fewer than `next` items is as long as all their histories.
theorem length_le_of_history {c : ℕ} (hle : ∀ n, (history key kind log n).length ≤ c) (next : ℕ)
    (hlt : ∀ e ∈ log, key e < next) : log.length ≤ next * c := by
  induction next generalizing log with
  | zero =>
      rw [List.eq_nil_iff_forall_not_mem.mpr fun e he => absurd (hlt e he) (Nat.not_lt_zero _)]
      exact Nat.zero_le _
  | succ next ih =>
      have hsplit := List.length_eq_length_filter_add (fun e => decide (key e = next)) (l := log)
      have hlast : (log.filter fun e => key e = next).length ≤ c := by
        simpa only [history, List.length_map] using hle next
      have hrest : (log.filter fun e => ! decide (key e = next)).length ≤ next * c := by
        refine ih (fun n => le_trans ?_ (hle n)) fun e he => ?_
        · simp only [history, List.length_map]
          exact (List.filter_sublist.filter _).length_le
        · obtain ⟨he, hne⟩ := List.mem_filter.mp he
          have hbound := hlt e he
          have hother : key e ≠ next := by simpa using hne
          omega
      rw [Nat.succ_mul]
      omega

section

variable {key : ε → ℕ} {kind : ε → κ} {log : List ε} {stages : List κ} {e : ε} {n : ℕ}

-- An entry about an item stands at its stage among the entries about the item.
theorem place_of_history (hhistory : history key kind log n <+: stages) (hnodup : stages.Nodup)
    (he : e ∈ log) (hkey : key e = n) {i : ℕ} (hi : stages[i]? = some (kind e)) :
    (log.filter fun e => key e = n)[i]? = some e := by
  have hmem : e ∈ log.filter fun e => key e = n := List.mem_filter.mpr ⟨he, decide_eq_true hkey⟩
  obtain ⟨p, hp, hget⟩ := List.getElem_of_mem hmem
  have hlength : p < (history key kind log n).length := by rwa [history, List.length_map]
  obtain ⟨rest, rfl⟩ := hhistory
  have hstage : (history key kind log n ++ rest)[p]? = some (kind e) := by
    rw [List.getElem?_append_left hlength, history, List.getElem?_map, List.getElem?_eq_getElem hp, hget]
    rfl
  have hsame : p = i :=
    (List.getElem?_inj (List.getElem?_eq_some_iff.mp hstage).1 hnodup).mp (hstage.trans hi.symm)
  rw [← hsame, List.getElem?_eq_getElem hp, hget]

-- An item has one entry for a stage.
theorem eq_of_history (hhistory : history key kind log n <+: stages) (hnodup : stages.Nodup) {e' : ε}
    (he : e ∈ log) (he' : e' ∈ log) (hkey : key e = n) (hkey' : key e' = n) {i : ℕ}
    (hi : stages[i]? = some (kind e)) (hi' : stages[i]? = some (kind e')) : e = e' := by
  have hplace := place_of_history hhistory hnodup he hkey hi
  have hplace' := place_of_history hhistory hnodup he' hkey' hi'
  exact Option.some.inj (hplace.symm.trans hplace')

-- What holds between each entry and all later ones holds along the stages of an item.
theorem related_of_history {r : ε → ε → Prop} (hlog : log.Pairwise r)
    (hhistory : history key kind log n <+: stages) (hnodup : stages.Nodup) {e' : ε} (he : e ∈ log)
    (he' : e' ∈ log) (hkey : key e = n) (hkey' : key e' = n) {i j : ℕ} (hij : i < j)
    (hi : stages[i]? = some (kind e)) (hj : stages[j]? = some (kind e')) : r e e' := by
  have hplace := place_of_history hhistory hnodup he hkey hi
  have hplace' := place_of_history hhistory hnodup he' hkey' hj
  obtain ⟨hilt, rfl⟩ := List.getElem?_eq_some_iff.mp hplace
  obtain ⟨hjlt, rfl⟩ := List.getElem?_eq_some_iff.mp hplace'
  exact List.pairwise_iff_getElem.mp (hlog.sublist List.filter_sublist) i j hilt hjlt hij

end

-- Items numbered from 0 go through the same stages, one log entry for each stage. `items`
-- holds every item with the number of stages it has entered.
structure Staged {ι : Type*} (number : ι → ℕ) (key : ε → ι) (kind : ε → κ) (stages : List κ)
    (next : ℕ) (items : Multiset (ι × ℕ)) (log : List ε) : Prop where
  numbered : items.map (fun x => number x.1) = Multiset.range next
  logged : ∀ x ∈ items, history (number ∘ key) kind log (number x.1) = stages.take x.2
  later : ∀ n, next ≤ n → history (number ∘ key) kind log n = []
  known : ∀ e ∈ log, ∃ x ∈ items, x.1 = key e

namespace Staged

variable {ι : Type*} {number : ι → ℕ} {key : ε → ι} {kind : ε → κ} {stages : List κ} {next : ℕ}
  {items : Multiset (ι × ℕ)} {log : List ε} {e : ε} {item : ι}

theorem init : Staged number key kind stages 0 0 [] where
  numbered := by simp
  logged x hx := absurd hx (Multiset.notMem_zero x)
  later _ _ := rfl
  known _ he := absurd he List.not_mem_nil

theorem number_lt (h : Staged number key kind stages next items log) {x : ι × ℕ} (hx : x ∈ items) :
    number x.1 < next := by
  rw [← Multiset.mem_range, ← h.numbered]
  exact Multiset.mem_map_of_mem (fun x => number x.1) hx

theorem number_inj (h : Staged number key kind stages next items log) {x y : ι × ℕ}
    (hx : x ∈ items) (hy : y ∈ items) (heq : number x.1 = number y.1) : x = y :=
  Multiset.inj_on_of_nodup_map (h.numbered ▸ Multiset.nodup_range next) x hx y hy heq

-- An item has entered the first stages, each once and in order.
theorem history_prefix (h : Staged number key kind stages next items log) (n : ℕ) :
    history (number ∘ key) kind log n <+: stages := by
  by_cases hn : next ≤ n
  · rw [h.later n hn]
    exact List.nil_prefix
  · have hmem : n ∈ items.map fun x => number x.1 := by
      rw [h.numbered, Multiset.mem_range]
      exact Nat.not_le.mp hn
    obtain ⟨x, hx, rfl⟩ := Multiset.mem_map.mp hmem
    rw [h.logged x hx]
    exact List.take_prefix _ _

-- The log has an entry for every item and stage at most.
theorem length_le (h : Staged number key kind stages next items log) :
    log.length ≤ next * stages.length := by
  refine length_le_of_history (fun n => (h.history_prefix n).length_le) next fun e he => ?_
  obtain ⟨x, hx, hxe⟩ := h.known e he
  have hlt := h.number_lt hx
  rwa [hxe] at hlt

-- Entries with the same number are about the same item.
theorem key_eq (h : Staged number key kind stages next items log) {e' : ε} (he : e ∈ log)
    (he' : e' ∈ log) (heq : number (key e) = number (key e')) : key e = key e' := by
  obtain ⟨x, hx, hxe⟩ := h.known e he
  obtain ⟨y, hy, hye⟩ := h.known e' he'
  rw [← hxe, ← hye] at heq ⊢
  rw [h.number_inj hx hy heq]

-- A new item enters the first stage.
theorem fresh (h : Staged number key kind stages next items log) (hkey : key e = item)
    (hnumber : number item = next) (hkind : stages[0]? = some (kind e)) :
    Staged number key kind stages (next + 1) ((item, 1) ::ₘ items) (log ++ [e]) := by
  subst hkey
  have hself : (number ∘ key) e = next := hnumber
  refine ⟨?_, fun x hx => ?_, fun n hn => ?_, fun e' he' => ?_⟩
  · rw [Multiset.map_cons, h.numbered, hnumber, Multiset.range_succ]
  · rcases Multiset.mem_cons.mp hx with rfl | hx
    · have hsnoc := history_snoc_self (number ∘ key) kind log e
      rw [hself, h.later next le_rfl] at hsnoc
      rw [hnumber, hsnoc, List.take_add_one, hkind]
      rfl
    · have hlt := h.number_lt hx
      rw [history_snoc_other (by omega), h.logged x hx]
  · rw [history_snoc_other (by omega), h.later n (by omega)]
  · rcases List.mem_append.mp he' with he' | he'
    · obtain ⟨x, hx, hxe⟩ := h.known e' he'
      exact ⟨x, Multiset.mem_cons_of_mem hx, hxe⟩
    · obtain rfl := List.mem_singleton.mp he'
      exact ⟨_, Multiset.mem_cons_self _ _, rfl⟩

-- An item enters the stage after its last.
theorem advance {others : Multiset (ι × ℕ)} {i : ℕ}
    (h : Staged number key kind stages next items log) (hitems : items = (item, i) ::ₘ others)
    (hkey : key e = item) (hkind : stages[i]? = some (kind e)) :
    Staged number key kind stages next ((item, i + 1) ::ₘ others) (log ++ [e]) := by
  subst hkey
  have hitem : (key e, i) ∈ items := hitems ▸ Multiset.mem_cons_self _ _
  have hothers : ∀ x ∈ others, x ∈ items := fun x hx => hitems ▸ Multiset.mem_cons_of_mem hx
  have hlt : number (key e) < next := h.number_lt hitem
  have hnumbered := h.numbered
  rw [hitems, Multiset.map_cons] at hnumbered
  refine ⟨by rw [Multiset.map_cons, hnumbered], fun x hx => ?_, fun n hn => ?_, fun e' he' => ?_⟩
  · rcases Multiset.mem_cons.mp hx with rfl | hx
    · have hsnoc := history_snoc_self (number ∘ key) kind log e
      have hlogged := h.logged _ hitem
      simp only [Function.comp_apply] at hsnoc
      rw [hsnoc, hlogged, List.take_add_one, hkind]
      rfl
    · have hne : (number ∘ key) e ≠ number x.1 := by
        have hnodup := hnumbered ▸ Multiset.nodup_range next
        intro heq
        exact (Multiset.nodup_cons.mp hnodup).1 (Multiset.mem_map.mpr ⟨x, hx, heq.symm⟩)
      rw [history_snoc_other hne, h.logged x (hothers x hx)]
  · have hne : (number ∘ key) e ≠ n := (hlt.trans_le hn).ne
    rw [history_snoc_other hne, h.later n hn]
  · rcases List.mem_append.mp he' with he' | he'
    · obtain ⟨x, hx, hxe⟩ := h.known e' he'
      rw [hitems] at hx
      rcases Multiset.mem_cons.mp hx with rfl | hx
      · exact ⟨_, Multiset.mem_cons_self _ _, hxe⟩
      · exact ⟨x, Multiset.mem_cons_of_mem hx, hxe⟩
    · obtain rfl := List.mem_singleton.mp he'
      exact ⟨_, Multiset.mem_cons_self _ _, rfl⟩

end Staged

end Puppetmaster.Library
