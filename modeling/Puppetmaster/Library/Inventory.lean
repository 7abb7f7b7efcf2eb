import Mathlib.Algebra.BigOperators.Group.Finset.Basic
import Mathlib.Algebra.Order.BigOperators.Group.Finset
import Mathlib.Algebra.Order.Group.Multiset
import Mathlib.Data.Multiset.Count
import Mathlib.Data.Fintype.BigOperators

namespace Puppetmaster.Library

-- Everything that a finite family of lists holds.
def inventory {ι α : Type*} [Fintype ι] (lists : ι → List α) : Multiset α :=
  ∑ i, (lists i : Multiset α)

section

variable {ι α : Type*} [Fintype ι] {lists next : ι → List α} {x : α}

theorem mem_inventory : x ∈ inventory lists ↔ ∃ i, x ∈ lists i := by
  simp [inventory, Multiset.mem_sum]

theorem inventory_eq_zero (h : ∀ i, lists i = []) : inventory lists = 0 :=
  Finset.sum_eq_zero fun i _ => by rw [h i, Multiset.coe_nil]

theorem inventory_congr (h : ∀ i, next i = lists i) : inventory next = inventory lists :=
  congrArg inventory (funext h)

-- One list gains an element.
theorem inventory_gain [DecidableEq ι] (i : ι) (hi : (next i).Perm (x :: lists i))
    (hother : ∀ j, j ≠ i → next j = lists j) : inventory next = x ::ₘ inventory lists := by
  have hrest : ∑ j ∈ Finset.univ.erase i, (next j : Multiset α) =
      ∑ j ∈ Finset.univ.erase i, (lists j : Multiset α) :=
    Finset.sum_congr rfl fun j hj => by rw [hother j (Finset.ne_of_mem_erase hj)]
  have hgain : (next i : Multiset α) = {x} + (lists i : Multiset α) := Multiset.coe_eq_coe.mpr hi
  rw [inventory, inventory, ← Finset.add_sum_erase _ _ (Finset.mem_univ i),
    ← Finset.add_sum_erase _ _ (Finset.mem_univ i), hrest, hgain, add_assoc, Multiset.singleton_add]

-- One list has one element exchanged for another.
theorem inventory_exchange [DecidableEq ι] {y : α} {rest : List α} (i : ι)
    (hi : (lists i).Perm (x :: rest)) (hi' : (next i).Perm (y :: rest))
    (hother : ∀ j, j ≠ i → next j = lists j) :
    ∃ others, inventory lists = x ::ₘ others ∧ inventory next = y ::ₘ others := by
  refine ⟨inventory (Function.update lists i rest), inventory_gain i ?_ fun j hj => ?_,
    inventory_gain i ?_ fun j hj => ?_⟩
  · rwa [Function.update_self]
  · exact (Function.update_of_ne hj _ _).symm
  · rwa [Function.update_self]
  · rw [Function.update_of_ne hj, hother j hj]

-- An element leaves one list for another.
theorem inventory_transfer [DecidableEq ι] (p q : ι) (x : α) (hpq : p ≠ q)
    (hp : (lists p).Perm (x :: next p)) (hq : (next q).Perm (x :: lists q))
    (hother : ∀ i, i ≠ p → i ≠ q → next i = lists i) : inventory next = inventory lists := by
  have hbefore : inventory lists = x ::ₘ inventory (Function.update lists p (next p)) := by
    apply inventory_gain p
    · rwa [Function.update_self]
    · exact fun i hi => (Function.update_of_ne hi _ _).symm
  have hafter : inventory next = x ::ₘ inventory (Function.update lists p (next p)) := by
    apply inventory_gain q
    · rwa [Function.update_of_ne hpq.symm]
    · intro i hi
      by_cases hip : i = p
      · rw [hip, Function.update_self]
      · rw [Function.update_of_ne hip, hother i hip hi]
  rw [hbefore, hafter]

-- An element is taken from the front of one list and put behind another.
theorem inventory_move [DecidableEq ι] (p q : ι) (x : α) (hpq : p ≠ q) (hp : lists p = x :: next p)
    (hq : next q = lists q ++ [x]) (hother : ∀ i, i ≠ p → i ≠ q → next i = lists i) :
    inventory next = inventory lists := by
  refine inventory_transfer p q x hpq ?_ ?_ hother
  · rw [hp]
  · rw [hq]
    exact List.perm_append_singleton x _

-- Lists that hold the elements of a duplicate-free list hold each of them in one place.
theorem exists_unique_of_inventory {all : List α} (h : inventory lists = (all : Multiset α))
    (hnodup : all.Nodup) (hx : x ∈ all) : ∃! i, x ∈ lists i := by
  classical
  have hmem : x ∈ inventory lists := h ▸ hx
  obtain ⟨i, hi⟩ := mem_inventory.mp hmem
  refine ⟨i, hi, fun j hj => ?_⟩
  by_contra hne
  have hcount : (inventory lists).count x ≤ 1 := by
    rw [h, Multiset.coe_count]
    exact List.nodup_iff_count_le_one.mp hnodup x
  have hsum := Finset.add_sum_erase Finset.univ
    (fun k => (lists k : Multiset α).count x) (Finset.mem_univ i)
  have hle := Finset.single_le_sum (f := fun k => (lists k : Multiset α).count x)
    (fun k _ => Nat.zero_le _) (Finset.mem_erase.mpr ⟨hne, Finset.mem_univ j⟩)
  rw [inventory, Multiset.count_sum'] at hcount
  have hipos : 0 < (lists i).count x := List.count_pos_iff.mpr hi
  have hjpos : 0 < (lists j).count x := List.count_pos_iff.mpr hj
  simp only [Multiset.coe_count] at hsum hle hcount
  omega

theorem nodup_of_inventory {all : List α} (h : inventory lists = (all : Multiset α))
    (hnodup : all.Nodup) (i : ι) : (lists i).Nodup := by
  have hle : (lists i : Multiset α) ≤ inventory lists :=
    Finset.single_le_sum (f := fun k => (lists k : Multiset α)) (fun k _ => Multiset.zero_le _)
      (Finset.mem_univ i)
  rw [h] at hle
  exact Multiset.coe_nodup.mp (Multiset.nodup_of_le hle (Multiset.coe_nodup.mpr hnodup))

-- A sum in which one summand is exchanged.
theorem sum_exchange [DecidableEq ι] {f g : ι → ℕ} (i : ι) (hother : ∀ j, j ≠ i → g j = f j) :
    ∑ j, g j + f i = ∑ j, f j + g i := by
  have hrest : ∑ j ∈ Finset.univ.erase i, g j = ∑ j ∈ Finset.univ.erase i, f j :=
    Finset.sum_congr rfl fun j hj => hother j (Finset.ne_of_mem_erase hj)
  rw [← Finset.add_sum_erase _ f (Finset.mem_univ i), ← Finset.add_sum_erase _ g (Finset.mem_univ i),
    hrest]
  omega

end

end Puppetmaster.Library
