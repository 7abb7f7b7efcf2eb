import Puppetmaster.Library.Inventory
import Puppetmaster.Library.Stages

namespace Puppetmaster.Library

-- Items pass from place to place, and the log tells of some of the passages. What it has told
-- of an item is a story of the place where the item is.
structure Journey {π ι ε κ : Type*} [Fintype π] (number : ι → ℕ) (key : ε → ι) (kind : ε → κ)
    (story : π → List κ → Prop) (all : List ι) (lists : π → List ι) (log : List ε) : Prop where
  placed : inventory lists = (all : Multiset ι)
  distinct : all.Nodup
  told : ∀ p, ∀ x ∈ lists p, story p (history (number ∘ key) kind log (number x))
  known : ∀ e ∈ log, key e ∈ all

namespace Journey

variable {π ι ε κ : Type*} [Fintype π] {number : ι → ℕ} {key : ε → ι} {kind : ε → κ}
  {story : π → List κ → Prop} {all : List ι} {lists next : π → List ι} {log : List ε} {x : ι}

theorem init (h : ∀ p, lists p = []) : Journey number key kind story [] lists [] where
  placed := inventory_eq_zero h
  distinct := List.nodup_nil
  told p _ hx := absurd (h p ▸ hx) List.not_mem_nil
  known _ he := absurd he List.not_mem_nil

theorem mem_all (h : Journey number key kind story all lists log) {p : π} (hx : x ∈ lists p) :
    x ∈ all := by
  have hmem : x ∈ inventory lists := mem_inventory.mpr ⟨p, hx⟩
  rwa [h.placed] at hmem

-- What the log tells of an item is a story of some place, or it tells nothing.
theorem exists_story (h : Journey number key kind story all lists log) (hnum : number.Injective)
    (x : ι) : (∃ p, x ∈ lists p ∧ story p (history (number ∘ key) kind log (number x))) ∨
      x ∉ all ∧ history (number ∘ key) kind log (number x) = [] := by
  by_cases hx : x ∈ all
  · have hmem : x ∈ inventory lists := h.placed ▸ hx
    obtain ⟨p, hp⟩ := mem_inventory.mp hmem
    exact .inl ⟨p, hp, h.told p x hp⟩
  · refine .inr ⟨hx, ?_⟩
    rw [history, List.map_eq_nil_iff, List.filter_eq_nil_iff]
    intro e he hsame
    have hkey : key e = x := hnum (of_decide_eq_true hsame)
    exact hx (hkey ▸ h.known e he)

-- A step that no place shows.
theorem rest (h : Journey number key kind story all lists log)
    (hperm : ∀ p, (next p).Perm (lists p)) : Journey number key kind story all next log where
  placed := by
    rw [← h.placed]
    exact Finset.sum_congr rfl fun p _ => Multiset.coe_eq_coe.mpr (hperm p)
  distinct := h.distinct
  told p x hx := h.told p x ((hperm p).mem_iff.mp hx)
  known := h.known

-- A new item enters at a place of which there is nothing to tell.
theorem enter [DecidableEq π] (h : Journey number key kind story all lists log)
    (hnum : number.Injective) (p : π) (hdistinct : (all ++ [x]).Nodup) (hstory : story p [])
    (hp : (next p).Perm (x :: lists p)) (hother : ∀ q, q ≠ p → next q = lists q) :
    Journey number key kind story (all ++ [x]) next log := by
  have hnew : x ∉ all := by
    intro hx
    exact (List.nodup_append.mp hdistinct).2.2 x hx x List.mem_cons_self rfl
  refine ⟨?_, hdistinct, fun q y hy => ?_, fun e he => List.mem_append_left _ (h.known e he)⟩
  · rw [inventory_gain p hp hother, h.placed, Multiset.cons_coe]
    exact Multiset.coe_eq_coe.mpr (List.perm_append_singleton x all).symm
  · by_cases hq : q = p
    · subst hq
      rcases List.mem_cons.mp (hp.mem_iff.mp hy) with rfl | hy
      · rcases h.exists_story hnum y with ⟨p, hmem, -⟩ | ⟨-, hnone⟩
        · exact absurd (h.mem_all hmem) hnew
        · rw [hnone]
          exact hstory
      · exact h.told q y hy
    · rw [hother q hq] at hy
      exact h.told q y hy

-- An item passes to another place, and the log tells of it.
theorem advance [DecidableEq π] (h : Journey number key kind story all lists log)
    (hnum : number.Injective) (p q : π) {e : ε} (hpq : p ≠ q) (hkey : key e = x)
    (hstory : ∀ l, story p l → story q (l ++ [kind e])) (hp : (lists p).Perm (x :: next p))
    (hq : (next q).Perm (x :: lists q)) (hother : ∀ i, i ≠ p → i ≠ q → next i = lists i) :
    Journey number key kind story all next (log ++ [e]) := by
  subst hkey
  have hitem : key e ∈ lists p := hp.mem_iff.mpr List.mem_cons_self
  have hplaced : inventory next = (all : Multiset ι) :=
    (inventory_transfer p q (key e) hpq hp hq hother).trans h.placed
  have hold : ∀ y i, y ≠ key e → y ∈ lists i →
      story i (history (number ∘ key) kind (log ++ [e]) (number y)) := by
    intro y i hne hy
    have hnumber : (number ∘ key) e ≠ number y := fun heq => hne (hnum heq).symm
    rw [history_snoc_other hnumber]
    exact h.told i y hy
  have hnot : ∀ i, i ≠ q → key e ∉ next i := by
    intro i hi hmem
    obtain ⟨j, -, hunique⟩ :=
      exists_unique_of_inventory hplaced h.distinct (h.mem_all hitem)
    have hq' : key e ∈ next q := hq.mem_iff.mpr List.mem_cons_self
    exact hi ((hunique i hmem).trans (hunique q hq').symm)
  refine ⟨hplaced, h.distinct, fun i y hy => ?_, fun e' he' => ?_⟩
  · by_cases hi : i = q
    · subst hi
      by_cases hy' : y = key e
      · subst hy'
        have hsnoc := history_snoc_self (number ∘ key) kind log e
        rw [Function.comp_apply] at hsnoc
        rw [hsnoc]
        exact hstory _ (h.told p _ hitem)
      · exact hold y i hy' ((List.mem_cons.mp (hq.mem_iff.mp hy)).resolve_left hy')
    · have hne : y ≠ key e := fun heq => hnot i hi (heq ▸ hy)
      by_cases hip : i = p
      · subst hip
        exact hold y i hne (hp.mem_iff.mpr (List.mem_cons_of_mem _ hy))
      · exact hold y i hne (hother i hip hi ▸ hy)
  · rcases List.mem_append.mp he' with he' | he'
    · exact h.known e' he'
    · obtain rfl := List.mem_singleton.mp he'
      exact h.mem_all hitem

end Journey

end Puppetmaster.Library
