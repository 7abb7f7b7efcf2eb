import Puppetmaster.Model.Workload
import Mathlib.Data.List.FinRange

namespace Puppetmaster.Model

open Library

variable {σ : Type} [PySet σ]

namespace GreedyScheduler

def step (x : Transaction σ × List (Transaction σ)) (txn : Transaction σ) :
    Except Exn (Transaction σ × List (Transaction σ)) := do
  if ← x.1.compat txn then return (← x.1.merge txn, x.2 ++ [txn]) else return x

def schedule : List (Transaction σ) → Except Exn (List (Transaction σ))
  | [] => .error .IndexError
  | first :: rest => do
      let (_, sched_txns) ← rest.foldlM step (first, [first])
      return sched_txns

end GreedyScheduler

namespace TournamentScheduler

def play : List (Transaction σ) → Except Exn (Transaction σ)
  | [ts1, ts2] => do if ← ts1.compat ts2 then ts1.merge ts2 else return ts1
  | _ => .error .ValueError

-- The loop, for at most so many turns.
def rounds : ℕ → List (Transaction σ) → Option (Except Exn (List (Transaction σ)))
  | 0, _ => none
  | fuel + 1, txns =>
      if 1 < txns.length then
        if txns.length % 2 = 0 then
          match (batched txns).mapM play with
          | .ok new_txns => rounds fuel new_txns
          | .error e => some (.error e)
        else some (.error (.AssertionError ""))
      else some (.ok txns)

def lookup (all_txns : List (Transaction σ)) (id : ℕ) : Except Exn (Transaction σ) :=
  match all_txns[id]? with
  | some txn => .ok txn
  | none => .error .IndexError

def collect (order : FrozensetOrder ℕ) (all_txns : List (Transaction σ)) :
    List (Transaction σ) → Except Exn (List (Transaction σ))
  | [] => .error .IndexError
  | txn :: _ => (order.toList txn.ids).mapM (lookup all_txns)

def schedule (order : FrozensetOrder ℕ) (fuel : ℕ) (all_txns : List (Transaction σ)) :
    Option (Except Exn (List (Transaction σ))) :=
  (rounds fuel all_txns).map fun txns => txns >>= collect order all_txns

end TournamentScheduler

-- What a set of transactions reads and writes.
section

variable {n : ℕ} (orig : Fin n → Transaction (Finset ℤ))

def readSet (A : Set (Fin n)) : Set ℤ := {obj | ∃ i ∈ A, obj ∈ (orig i).read_set}

def writeSet (A : Set (Fin n)) : Set ℤ := {obj | ∃ i ∈ A, obj ∈ (orig i).write_set}

theorem readSet_union (A B : Set (Fin n)) : readSet orig (A ∪ B) = readSet orig A ∪ readSet orig B := by
  ext obj
  simp only [readSet, Set.mem_union, Set.mem_ofPred_eq, or_and_right, exists_or]

theorem writeSet_union (A B : Set (Fin n)) : writeSet orig (A ∪ B) = writeSet orig A ∪ writeSet orig B := by
  ext obj
  simp only [writeSet, Set.mem_union, Set.mem_ofPred_eq, or_and_right, exists_or]

theorem readSet_singleton (i : Fin n) : readSet orig {i} = (orig i).read_set := by
  ext obj
  simp [readSet]

theorem writeSet_singleton (i : Fin n) : writeSet orig {i} = (orig i).write_set := by
  ext obj
  simp [writeSet]

-- Merged transactions conflict iff two of their parts do.
theorem conflictSet_eq_empty_iff (A B : Set (Fin n)) :
    conflictSet (readSet orig A) (writeSet orig A) (readSet orig B) (writeSet orig B) = ∅ ↔
      ∀ i ∈ A, ∀ j ∈ B, (orig i).Compatible (orig j) := by
  simp only [Transaction.compatible_iff, Set.eq_empty_iff_forall_notMem]
  simp only [conflictSet, readSet, writeSet, Set.mem_union, Set.mem_inter_iff, Set.mem_ofPred_eq,
    Finset.mem_coe]
  constructor
  · rintro h i hi j hj obj ((⟨hr, hw⟩ | ⟨hw, hr⟩) | ⟨hw, hw'⟩)
    · exact h obj (Or.inl (Or.inl ⟨⟨i, hi, hr⟩, ⟨j, hj, hw⟩⟩))
    · exact h obj (Or.inl (Or.inr ⟨⟨i, hi, hw⟩, ⟨j, hj, hr⟩⟩))
    · exact h obj (Or.inr ⟨⟨i, hi, hw⟩, ⟨j, hj, hw'⟩⟩)
  · rintro h obj ((⟨⟨i, hi, hr⟩, ⟨j, hj, hw⟩⟩ | ⟨⟨i, hi, hw⟩, ⟨j, hj, hr⟩⟩) | ⟨⟨i, hi, hw⟩, ⟨j, hj, hw'⟩⟩)
    · exact h i hi j hj obj (Or.inl (Or.inl ⟨hr, hw⟩))
    · exact h i hi j hj obj (Or.inl (Or.inr ⟨hw, hr⟩))
    · exact h i hi j hj obj (Or.inr ⟨hw, hw'⟩)

theorem Transaction.Compatible.symm {ts1 ts2 : Transaction (Finset ℤ)} (h : ts1.Compatible ts2) :
    ts2.Compatible ts1 := by
  rw [Transaction.compatible_iff, conflictSet_comm]
  exact Transaction.compatible_iff.mp h

variable (rep : Abstraction σ)

-- A transaction that was merged from some of the given ones, for these with the sets in
-- a representation.
structure Stands (ts : Transaction σ) (A : Set (Fin n)) : Prop where
  ids : ∀ id, id ∈ ts.ids ↔ ∃ i ∈ A, i.val = id
  read : rep.Rep ts.read_set (readSet orig A)
  write : rep.Rep ts.write_set (writeSet orig A)

variable {orig rep}

theorem Stands.merge {s t : Transaction σ} {A B : Set (Fin n)} (hs : Stands orig rep s A)
    (ht : Stands orig rep t B) (h : s.compat t = .ok true) :
    ∃ u, s.merge t = .ok u ∧ Stands orig rep u (A ∪ B) := by
  obtain ⟨u, hu, hids, hread, hwrite⟩ := Transaction.merge_eq rep hs.read hs.write ht.read ht.write h
  refine ⟨u, hu, fun id => ?_, ?_, ?_⟩
  · rw [hids, Finset.mem_union, hs.ids, ht.ids]
    simp only [Set.mem_union, or_and_right, exists_or]
  · rwa [readSet_union]
  · rwa [writeSet_union]

variable (orig rep)

def merger : Merger Exn (Transaction σ) (Fin n) where
  compat := Transaction.compat
  merge := Transaction.merge
  Stands := Stands orig rep
  Apart i j := (orig i).Compatible (orig j)
  symm := Transaction.Compatible.symm
  compat_ok hs ht := by
    obtain ⟨conflicts, -, hcompat⟩ := Transaction.compat_eq rep hs.read hs.write ht.read ht.write
    exact ⟨_, hcompat⟩
  apart_of_compat hs ht h := by
    have hempty := Transaction.conflictSet_eq_empty_of_compat rep hs.read hs.write ht.read ht.write h
    exact (conflictSet_eq_empty_iff orig _ _).mp hempty
  merge_ok hs ht h := hs.merge ht h

variable {orig rep} {f : Fin n → Transaction σ}

-- The greedy scheduler takes transactions that are apart, the first of them, and leaves none out
-- that is found compatible with what was taken before it.
theorem GreedyScheduler.schedule_eq (hf : ∀ i, Stands orig rep (f i) {i}) (hn : 0 < n) :
    ∃ js : List (Fin n), schedule ((List.finRange n).map f) = .ok (js.map f) ∧
      js.Sublist (List.finRange n) ∧ js.head? = some ⟨0, hn⟩ ∧
      js.Pairwise (fun i j => (orig i).Compatible (orig j)) ∧
      ∀ i, i ∉ js → ∃ t B, Stands orig rep t B ∧ t.compat (f i) = .ok false ∧ ∀ a ∈ B, a ∈ js ∧ a < i := by
  obtain ⟨m, rfl⟩ := Nat.exists_eq_succ_of_ne_zero hn.ne'
  have hlt := List.pairwise_lt_finRange (m + 1)
  rw [List.finRange_succ] at hlt ⊢
  obtain ⟨hfirst, hlt⟩ := List.pairwise_cons.mp hlt
  obtain ⟨js, t, hfold, hsub, hapart, hjs, hout⟩ :=
    (merger orig rep).foldlM_gather hlt hf (hf 0) [f 0]
  refine ⟨0 :: js, ?_, hsub.cons_cons 0, rfl, List.pairwise_cons.mpr ⟨hapart 0 rfl, hjs⟩, ?_⟩
  · have hfold : ((List.finRange m).map Fin.succ |>.map f).foldlM step (f 0, [f 0]) =
        .ok (t, [f 0] ++ js.map f) := hfold
    rw [List.map_cons, schedule, hfold]
    rfl
  · intro i hi
    rw [List.mem_cons, not_or] at hi
    have hmem : i ∈ (List.finRange m).map Fin.succ := by
      obtain ⟨k, rfl⟩ := Fin.exists_succ_eq.mpr hi.1
      exact List.mem_map_of_mem (List.mem_finRange k)
    obtain ⟨u, B, hstands, hcompat, hB⟩ := hout i hmem hi.2
    refine ⟨u, B, hstands, hcompat, fun a ha => ?_⟩
    rcases hB a ha with rfl | ⟨hajs, hai⟩
    · exact ⟨List.mem_cons_self, hfirst i hmem⟩
    · exact ⟨List.mem_cons_of_mem _ hajs, hai⟩

namespace TournamentScheduler

-- What holds of each transaction in the tournament.
def Plays (orig : Fin n → Transaction (Finset ℤ)) (rep : Abstraction σ) (ts : Transaction σ) : Prop :=
  ∃ A, Stands orig rep ts A ∧ A.Pairwise fun i j => (orig i).Compatible (orig j)

theorem play_ok {s t : Transaction σ} (hs : Plays orig rep s) (ht : Plays orig rep t) :
    ∃ u, play [s, t] = .ok u ∧ Plays orig rep u ∧ (0 ∈ s.ids → 0 ∈ u.ids) := by
  obtain ⟨A, hs, hA⟩ := hs
  obtain ⟨B, ht, hB⟩ := ht
  obtain ⟨u, C, hu, hstands, hC, hsub⟩ := (merger orig rep).stands_winner hs ht hA hB
  refine ⟨u, hu, ⟨C, hstands, hC⟩, fun h => ?_⟩
  obtain ⟨i, hi, hi0⟩ := (hs.ids 0).mp h
  exact (hstands.ids 0).mpr ⟨i, hsub hi, hi0⟩

-- After k turns one of 2^k is left.
theorem rounds_ok {k fuel : ℕ} {txns : List (Transaction σ)} (hlength : txns.length = 2 ^ k)
    (hfuel : k < fuel) (hplays : ∀ ts ∈ txns, Plays orig rep ts) (hfirst : ∀ ts ∈ txns.head?, 0 ∈ ts.ids) :
    ∃ ts, rounds fuel txns = some (.ok [ts]) ∧ Plays orig rep ts ∧ 0 ∈ ts.ids := by
  induction k generalizing fuel txns with
  | zero =>
      obtain ⟨ts, rfl⟩ := List.length_eq_one_iff.mp hlength
      obtain ⟨fuel, rfl⟩ := Nat.exists_eq_succ_of_ne_zero (Nat.ne_of_gt hfuel)
      refine ⟨ts, ?_, hplays ts List.mem_cons_self, hfirst ts rfl⟩
      rw [rounds, if_neg (by rw [hlength]; decide)]
  | succ k ih =>
      obtain ⟨fuel, rfl⟩ := Nat.exists_eq_succ_of_ne_zero (Nat.ne_of_gt (Nat.zero_lt_of_lt hfuel))
      rw [Nat.pow_succ, Nat.mul_comm] at hlength
      have hpos : 0 < 2 ^ k := Nat.two_pow_pos k
      have hplay (s t : Transaction σ) (hs : Plays orig rep s) (ht : Plays orig rep t) :
          ∃ u, play [s, t] = .ok u ∧ Plays orig rep u ∧ (0 ∈ s.ids → 0 ∈ u.ids) := play_ok hs ht
      obtain ⟨new_txns, hnew, hcount, hnewPlays, hnewFirst⟩ := mapM_batched hplay hlength hplays
      obtain ⟨ts, hrounds, hts, hzero⟩ :=
        ih hcount (Nat.lt_of_succ_lt_succ hfuel) hnewPlays (hnewFirst hfirst)
      refine ⟨ts, ?_, hts, hzero⟩
      rw [rounds, if_pos (by omega), if_pos (by omega), hnew]
      exact hrounds

-- The tournament ends with transactions that are apart and with the first of them.
theorem schedule_eq (hf : ∀ i, Stands orig rep (f i) {i}) (order : FrozensetOrder ℕ) {k fuel : ℕ}
    (hn : n = 2 ^ k) (hfuel : k < fuel) :
    ∃ js : List (Fin n), schedule order fuel ((List.finRange n).map f) = some (.ok (js.map f)) ∧
      js.Nodup ∧ (∃ j ∈ js, j.val = 0) ∧ js.Pairwise fun i j => (orig i).Compatible (orig j) := by
  have hplays : ∀ ts ∈ (List.finRange n).map f, Plays orig rep ts :=
    List.forall_mem_map.mpr fun i _ => ⟨{i}, hf i, Set.pairwise_singleton i _⟩
  have hfirst : ∀ ts ∈ ((List.finRange n).map f).head?, 0 ∈ ts.ids := by
    obtain ⟨m, rfl⟩ := Nat.exists_eq_succ_of_ne_zero (hn ▸ (Nat.two_pow_pos k).ne')
    intro ts hts
    rw [List.finRange_succ] at hts
    obtain rfl := Option.some.inj hts
    exact ((hf 0).ids 0).mpr ⟨0, rfl, rfl⟩
  obtain ⟨ts, hrounds, ⟨A, hstands, hA⟩, hzero⟩ :=
    rounds_ok (by rw [List.length_map, List.length_finRange, hn]) hfuel hplays hfirst
  have hlt : ∀ id ∈ order.toList ts.ids, id < n := by
    intro id hid
    obtain ⟨i, -, rfl⟩ := (hstands.ids id).mp ((order.mem _ _).mp hid)
    exact i.isLt
  obtain ⟨js, hjs⟩ : ∃ js : List (Fin n), js.map Fin.val = order.toList ts.ids :=
    ⟨(order.toList ts.ids).pmap Fin.mk hlt, by rw [List.map_pmap, List.pmap_eq_map, List.map_id']⟩
  have hmem : ∀ j ∈ js, j ∈ A := by
    intro j hj
    have hid : j.val ∈ order.toList ts.ids := hjs ▸ List.mem_map_of_mem hj
    obtain ⟨i, hi, hij⟩ := (hstands.ids j).mp ((order.mem _ _).mp hid)
    exact Fin.val_injective hij ▸ hi
  have hlookup (j : Fin n) : lookup ((List.finRange n).map f) j = .ok (f j) := by
    simp [lookup]
  have hnodup : js.Nodup := List.Nodup.of_map Fin.val (hjs ▸ order.nodup ts.ids)
  refine ⟨js, ?_, hnodup, ?_, ?_⟩
  · rw [schedule, hrounds, Option.map_some, ok_bind, collect, ← hjs, mapM_map_ok fun j _ => hlookup j]
  · have hid := (order.mem ts.ids 0).mpr hzero
    rw [← hjs] at hid
    exact List.mem_map.mp hid
  · exact hnodup.pairwise_of_forall_ne fun i hi j hj hne => hA (hmem i hi) (hmem j hj) hne

end TournamentScheduler

end

section

variable {txns : List (Transaction (Finset ℤ))}

theorem stands_get (hids : ∀ i (hi : i < txns.length), txns[i].ids = {i}) (i : Fin txns.length) :
    Stands txns.get exact (txns.get i) {i} where
  ids id := by
    have hi : (txns.get i).ids = {i.val} := hids i i.isLt
    rw [hi, Finset.mem_singleton]
    constructor
    · rintro rfl
      exact ⟨i, rfl, rfl⟩
    · rintro ⟨_, rfl, rfl⟩
      rfl
  read := (readSet_singleton txns.get i).symm
  write := (writeSet_singleton txns.get i).symm

-- One that is found incompatible with a merged transaction conflicts with a part of it.
theorem exists_conflict {n : ℕ} {orig : Fin n → Transaction (Finset ℤ)} {t : Transaction (Finset ℤ)}
    {B : Set (Fin n)} {i : Fin n} (ht : Stands orig exact t B) (h : t.compat (orig i) = .ok false) :
    ∃ a ∈ B, ¬ (orig a).Compatible (orig i) := by
  by_contra hnone
  have hall : ∀ a ∈ B, ∀ j ∈ ({i} : Set (Fin n)), (orig a).Compatible (orig j) := by
    rintro a ha j rfl
    by_contra hconflict
    exact hnone ⟨a, ha, hconflict⟩
  rw [← conflictSet_eq_empty_iff, readSet_singleton, writeSet_singleton] at hall
  have hread : (t.read_set : Set ℤ) = readSet orig B := ht.read
  have hwrite : (t.write_set : Set ℤ) = writeSet orig B := ht.write
  rw [← hread, ← hwrite, ← Transaction.compatible_iff, Transaction.Compatible, h] at hall
  cases hall

theorem get_injective (hids : ∀ i (hi : i < txns.length), txns[i].ids = {i}) :
    Function.Injective txns.get := by
  intro i j hij
  have hi : (txns.get i).ids = {i.val} := hids i i.isLt
  have hj : (txns.get j).ids = {j.val} := hids j j.isLt
  rw [hij, hj] at hi
  exact Fin.val_injective (Finset.singleton_injective hi).symm

-- Both schedulers take transactions that are compatible with each other, and the first of all.
theorem schedule_selects (hids : ∀ i (hi : i < txns.length), txns[i].ids = {i}) :
    (txns ≠ [] → ∃ out, GreedyScheduler.schedule txns = .ok out ∧ out.Sublist txns ∧
      out.Pairwise Transaction.Compatible ∧ out.head? = txns.head? ∧
      ∀ i (hi : i < txns.length), txns[i] ∉ out →
        ∃ j, ∃ hj : j < i, txns[j] ∈ out ∧ ¬ txns[j].Compatible txns[i]) ∧
    ∀ (order : FrozensetOrder ℕ) (k fuel : ℕ), txns.length = 2 ^ k → k < fuel →
      ∃ out, TournamentScheduler.schedule order fuel txns = some (.ok out) ∧ (∀ ts ∈ out, ts ∈ txns) ∧
        out.Pairwise Transaction.Compatible ∧ out.Nodup ∧ ∀ first ∈ txns.head?, first ∈ out := by
  have hget : (List.finRange txns.length).map txns.get = txns := List.map_get_finRange txns
  have hstands := stands_get hids
  refine ⟨fun hne => ?_, fun order k fuel hlength hfuel => ?_⟩
  · have hpos : 0 < txns.length := List.length_pos_of_ne_nil hne
    obtain ⟨js, hschedule, hsub, hfirst, hjs, hout⟩ := GreedyScheduler.schedule_eq hstands hpos
    have hsub := hsub.map txns.get
    rw [hget] at hschedule hsub
    refine ⟨js.map txns.get, hschedule, hsub, List.pairwise_map.mpr hjs, ?_, fun i hi hnot => ?_⟩
    · rw [List.head?_map, hfirst, List.head?_eq_getElem?, List.getElem?_eq_getElem hpos]
      rfl
    · have hi' : (⟨i, hi⟩ : Fin txns.length) ∉ js := fun hmem => hnot (List.mem_map_of_mem hmem)
      obtain ⟨t, B, ht, hcompat, hB⟩ := hout _ hi'
      obtain ⟨a, ha, hconflict⟩ := exists_conflict ht hcompat
      obtain ⟨hajs, hai⟩ := hB a ha
      exact ⟨a, hai, List.mem_map_of_mem hajs, hconflict⟩
  · obtain ⟨js, hschedule, hnodup, ⟨j, hj, hj0⟩, hjs⟩ :=
      TournamentScheduler.schedule_eq hstands order hlength hfuel
    rw [hget] at hschedule
    refine ⟨js.map txns.get, hschedule, List.forall_mem_map.mpr fun i _ => List.get_mem txns i,
      List.pairwise_map.mpr hjs, hnodup.map (get_injective hids), fun first hfirst => ?_⟩
    refine List.mem_map.mpr ⟨j, hj, ?_⟩
    rw [List.head?_eq_getElem?, ← hj0] at hfirst
    exact List.getElem_eq_iff _ |>.mpr hfirst

-- The second conflicts with the first, the others do not.
def fourTxns : List (Transaction (Finset ℤ)) :=
  [⟨{0}, {1}, {2}⟩, ⟨{1}, {2}, {3}⟩, ⟨{2}, {4}, {5}⟩, ⟨{3}, {1, 6}, ∅⟩]

theorem schedule_selects_fourTxns :
    (∃ out, GreedyScheduler.schedule fourTxns = .ok out ∧ out.Pairwise Transaction.Compatible) ∧
      ∃ out, TournamentScheduler.schedule (sortedOrder ℕ) 3 fourTxns = some (.ok out) ∧
        out.Pairwise Transaction.Compatible ∧ out.Nodup := by
  have hids : ∀ i (hi : i < fourTxns.length), fourTxns[i].ids = {i} := by decide
  obtain ⟨hgreedy, htournament⟩ := schedule_selects hids
  obtain ⟨out, hout, -, hcompatible, -⟩ := hgreedy (List.cons_ne_nil _ _)
  obtain ⟨out', hout', -, hcompatible', hnodup, -⟩ := htournament (sortedOrder ℕ) 2 3 rfl (by decide)
  exact ⟨⟨out, hout, hcompatible⟩, out', hout', hcompatible', hnodup⟩

end

end Puppetmaster.Model
