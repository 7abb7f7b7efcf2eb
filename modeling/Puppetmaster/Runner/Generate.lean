import Puppetmaster.Library.Chunks
import Puppetmaster.Library.Parallel
import Puppetmaster.Runner.Workload

namespace Puppetmaster.Runner

open Library Wrapper

-- stdlib.h
abbrev RAND_MAX : ℕ := 2 ^ 31 - 1

-- Doubles, with what generate.c computes on them. It compares only a quotient of rand_r, which is a
-- number, with another double: a NaN there is as good as a double below all numbers. Division
-- rounds, but keeps the order.
class Double (α : Type) extends LinearOrder α, Add α, Div α where
  ofInt : ℤ → α
  pow : α → α → α
  div_le : ∀ k ≤ RAND_MAX, ofInt k / ofInt RAND_MAX ≤ ofInt RAND_MAX / ofInt RAND_MAX

-- (double)rand_r(seed) / RAND_MAX
def uniform {α : Type} [Double α] (k : Fin (RAND_MAX + 1)) : α :=
  Double.ofInt k.val / Double.ofInt RAND_MAX

def make_zipf_weights {α : Type} [Double α] (n : ℕ) (alpha : α) : List α :=
  let weights := (List.range n).map fun i =>
    Double.ofInt 1 / Double.pow (Double.ofInt ((i + 1 : ℕ) : ℤ)) alpha
  let total := weights.foldl (· + ·) (Double.ofInt 0)
  match weights.map (· / total) with
  | [] => []
  | first :: rest => rest.scanl (fun sum weight => weight + sum) first

namespace Zipf

variable {α : Type} [LinearOrder α]

-- The loop of sample_zipf for the random number `r`, on an array that is read within its bounds
-- only. The sum of the two bounds is an int.
def sampleLoop (cdf : List α) (r : α) (lo hi : ℕ) : Except Abort ℕ :=
  if _ : lo < hi then
    if lo + hi < 2 ^ 31 then
      match cdf[(lo + hi) / 2]? with
      | some x => if r ≤ x then sampleLoop cdf r lo ((lo + hi) / 2) else sampleLoop cdf r ((lo + hi) / 2 + 1) hi
      | none => .error .undefined
    else .error .undefined
  else .ok lo
termination_by hi - lo

def sample_zipf (cdf : List α) (r : α) : Except Abort ℕ := sampleLoop cdf r 0 (cdf.length - 1)

end Zipf

-- The arguments of generate_workload, as far as main has checked them. The index of the last
-- transaction of a thread is computed as an int.
structure GenerateArgs (α : Type) [Double α] where
  num_txns : ℕ
  num_objs_per_txn : ℤ
  addr_space : ℕ
  zipf_alpha : α
  write_prob : α
  num_reads : ℤ
  num_writes : ℤ
  num_threads : ℕ
  addr_space_pos : 1 ≤ addr_space
  num_threads_pos : 1 ≤ num_threads
  num_objs_le : num_objs_per_txn ≤ MAX_TXN_OBJS
  split_sum : ¬ (num_reads = 0 ∧ num_writes = 0) → num_reads + num_writes = num_objs_per_txn
  index_lt : num_txns * num_threads < 2 ^ 31

-- What one turn of a worker takes from rand_r.
structure Draw where
  obj : Fin (RAND_MAX + 1)
  is_write : Fin (RAND_MAX + 1)

-- Where a worker stands in worker_fn: at the head of one of its loops.
inductive WorkerPC where
  | txn (i : ℕ)
  | objs (i j : ℕ)
  | reads (i j : ℕ)
  | writes (i j : ℕ)
  | finished
deriving DecidableEq

namespace GenerateArgs

variable {α : Type} [Double α] (a : GenerateArgs α)

def start (t : Fin a.num_threads) : ℕ := a.num_txns * t / a.num_threads

def stop (t : Fin a.num_threads) : ℕ := a.num_txns * (t + 1) / a.num_threads

-- The objects are drawn as reads or writes, where no numbers of them are given.
def mixed : Prop := a.num_reads = 0 ∧ a.num_writes = 0

instance : Decidable a.mixed := inferInstanceAs (Decidable (_ ∧ _))

abbrev Memory := Fin a.num_txns → Txn

def modifyTxn (i : ℕ) (f : Txn → Except Abort Txn) (txns : a.Memory) : Except Abort a.Memory :=
  if h : i < a.num_txns then (f (txns ⟨i, h⟩)).map (Function.update txns ⟨i, h⟩)
  else .error .undefined

def cdf : List α := make_zipf_weights a.addr_space a.zipf_alpha

-- Sample an object and put it into one of the arrays.
def addObj (d : Draw) (is_write : Bool) (full : Abort) (txn : Txn) : Except Abort Txn := do
  let obj ← Zipf.sample_zipf a.cdf (uniform d.obj)
  pushOr txn is_write (BitVec.ofNat 32 obj) full

-- A turn of a loop `for (int j = 0; j < bound; ++j)` over the objects of transaction `i`.
def objLoop (i j : ℕ) (bound : ℤ) (add : Txn → Except Abort Txn) (again after : WorkerPC)
    (txns : a.Memory) : Option (Except Abort (a.Memory × WorkerPC)) :=
  if j < bound then some ((a.modifyTxn i add txns).map (·, again)) else some (.ok (txns, after))

-- A turn of worker_fn. Only the loop that draws is_write asserts that the array has a free place.
-- The loop over the writes ends at num_reads, as that over the reads does.
def worker_fn (t : Fin a.num_threads) (d : Draw) (txns : a.Memory) :
    WorkerPC → Option (Except Abort (a.Memory × WorkerPC))
  | .txn i =>
      if i < a.stop t then
        let next := if a.mixed then .objs i 0 else .reads i 0
        some ((a.modifyTxn i (fun txn => .ok (txn.restart (BitVec.ofNat 32 i) 0)) txns).map (·, next))
      else some (.ok (txns, .finished))
  | .objs i j =>
      a.objLoop i j a.num_objs_per_txn (a.addObj d (uniform d.is_write < a.write_prob)
        (.fatal "Assertion failed")) (.objs i (j + 1)) (.txn (i + 1)) txns
  | .reads i j =>
      a.objLoop i j a.num_reads (a.addObj d false .undefined) (.reads i (j + 1)) (.writes i 0) txns
  | .writes i j =>
      a.objLoop i j a.num_reads (a.addObj d true .undefined) (.writes i (j + 1)) (.txn (i + 1)) txns
  | .finished => none

-- All threads are created before one of them is joined.
def init (memory : a.Memory) : Parallel.State (Fin a.num_threads) a.Memory WorkerPC Abort where
  memory := memory
  workers t := .txn (a.start t)
  aborted := none

def generate_workload := Parallel.step a.worker_fn

end GenerateArgs

end Puppetmaster.Runner
