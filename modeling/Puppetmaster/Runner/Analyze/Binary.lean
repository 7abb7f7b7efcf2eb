import Puppetmaster.Library.Reader
import Mathlib.Data.List.FinRange

namespace Puppetmaster.Runner.Binary

open Library

-- The binary output of analyze.c, and read_binary_output of visualize.py.

-- Only the bits of a double are looked at.
abbrev Double := BitVec 64

inductive TimeUnit where
  | UNIT_NS | UNIT_US | UNIT_MS | UNIT_S
deriving DecidableEq

def TimeUnit.value : TimeUnit → Word
  | .UNIT_NS => 0
  | .UNIT_US => 1
  | .UNIT_MS => 2
  | .UNIT_S => 3

structure HistogramBucket where
  center : Double
  count : Word
  cdf : Double

-- for (int i = 0; i < n; i++), and range(n)
def turns (n : ℤ) : ℕ := n.toNat

-- The variables that are written, with the arrays as far as they are.
structure Analyzed where
  num_txns : Word
  complete_txns : Word
  filtered_count : Word
  num_buckets : Word
  cpu_freq : Double
  num_puppets : Word
  average_throughput : Double
  num_throughput_windows : Word
  window_seconds : Double
  throughput_x : Fin (turns num_throughput_windows.toInt) → Double
  submit_y : Fin (turns num_throughput_windows.toInt) → Double
  sched_y : Fin (turns num_throughput_windows.toInt) → Double
  recv_y : Fin (turns num_throughput_windows.toInt) → Double
  done_y : Fin (turns num_throughput_windows.toInt) → Double
  cleanup_y : Fin (turns num_throughput_windows.toInt) → Double
  e2e_unit : TimeUnit
  submit_sched_unit : TimeUnit
  sched_recv_unit : TimeUnit
  recv_done_unit : TimeUnit
  done_cleanup_unit : TimeUnit
  e2e_hist : Fin (turns num_buckets.toInt) → HistogramBucket
  submit_sched_hist : Fin (turns num_buckets.toInt) → HistogramBucket
  sched_recv_hist : Fin (turns num_buckets.toInt) → HistogramBucket
  recv_done_hist : Fin (turns num_buckets.toInt) → HistogramBucket
  done_cleanup_hist : Fin (turns num_buckets.toInt) → HistogramBucket

section

variable {n : ℕ}

def fwriteInt (x : Word) : List Byte := Layout.word.write x

def fwriteDouble (x : Double) : List Byte := Layout.doubleWord.write x

def fwriteThroughput (throughput_x y : Fin n → Double) : List Byte :=
  (List.finRange n).flatMap fun i => fwriteDouble (throughput_x i) ++ fwriteDouble (y i)

def fwriteHistogram (hist : Fin n → HistogramBucket) : List Byte :=
  (List.finRange n).flatMap fun i =>
    fwriteDouble (hist i).center ++ (fwriteInt (hist i).count ++ fwriteDouble (hist i).cdf)

end

def fwriteHeader (a : Analyzed) : List Byte :=
  [fwriteInt a.num_txns,
    fwriteInt a.complete_txns,
    fwriteInt a.filtered_count,
    fwriteInt a.num_buckets,
    fwriteDouble a.cpu_freq,
    fwriteInt a.num_puppets,
    fwriteDouble a.average_throughput,
    fwriteInt a.num_throughput_windows,
    fwriteDouble a.window_seconds].flatten

def analyzedBin (a : Analyzed) : List Byte :=
  fwriteHeader a ++
    ([fwriteThroughput a.throughput_x a.submit_y,
      fwriteThroughput a.throughput_x a.sched_y,
      fwriteThroughput a.throughput_x a.recv_y,
      fwriteThroughput a.throughput_x a.done_y,
      fwriteThroughput a.throughput_x a.cleanup_y].flatten ++
    ([fwriteInt a.e2e_unit.value,
      fwriteInt a.submit_sched_unit.value,
      fwriteInt a.sched_recv_unit.value,
      fwriteInt a.recv_done_unit.value,
      fwriteInt a.done_cleanup_unit.value].flatten ++
    [fwriteHistogram a.e2e_hist,
      fwriteHistogram a.submit_sched_hist,
      fwriteHistogram a.sched_recv_hist,
      fwriteHistogram a.recv_done_hist,
      fwriteHistogram a.done_cleanup_hist].flatten))

-- The keys of the dictionary that is read are made of these.
inductive Stage where
  | submit | sched | recv | done | cleanup
deriving DecidableEq

inductive LatencyType where
  | e2e | submit_sched | sched_recv | recv_done | done_cleanup
deriving DecidableEq

def stages : List Stage := [.submit, .sched, .recv, .done, .cleanup]

def latency_types : List LatencyType := [.e2e, .submit_sched, .sched_recv, .recv_done, .done_cleanup]

structure Header where
  total_txns : ℤ
  complete_txns : ℤ
  filtered_count : ℤ
  num_buckets : ℤ
  cpu_freq : Double
  num_puppets : ℤ
  average_throughput : Double
  num_throughput_windows : ℤ
  window_seconds : Double
deriving DecidableEq

structure Series where
  times : List Double
  values : List Double
deriving DecidableEq

structure Histogram where
  centers : List Double
  counts : List ℤ
  cdfs : List Double
  unit : ℤ
deriving DecidableEq

structure Output where
  header : Header
  throughput : List (Stage × Series)
  unit : List (LatencyType × ℤ)
  histogram : List (LatencyType × Histogram)
deriving DecidableEq

-- struct.unpack of f.read
def unpackInt : Reader ℤ := BitVec.toInt <$> (Layout.word.read : Reader Word)

def unpackDouble : Reader Double := Layout.doubleWord.read

def readHeader : Reader Header := do
  let total_txns ← unpackInt
  let complete_txns ← unpackInt
  let filtered_count ← unpackInt
  let num_buckets ← unpackInt
  let cpu_freq ← unpackDouble
  let num_puppets ← unpackInt
  let average_throughput ← unpackDouble
  let num_throughput_windows ← unpackInt
  let window_seconds ← unpackDouble
  return { total_txns, complete_txns, filtered_count, num_buckets, cpu_freq, num_puppets,
           average_throughput, num_throughput_windows, window_seconds }

def readWindow : Reader (Double × Double) := do
  let time ← unpackDouble
  let throughput ← unpackDouble
  return (time, throughput)

def readThroughput (n_windows : ℤ) : Reader Series := do
  let windows ← Reader.times readWindow (turns n_windows)
  return { times := windows.map (·.1), values := windows.map (·.2) }

-- What is not in TIME_UNITS is taken for microseconds.
def readUnit : Reader ℤ := do
  let unit_id ← unpackInt
  return if 0 ≤ unit_id ∧ unit_id ≤ 3 then unit_id else 1

def readBucket : Reader (Double × ℤ × Double) := do
  let center ← unpackDouble
  let count ← unpackInt
  let cdf ← unpackDouble
  return (center, count, cdf)

def readHistogram (n_buckets unit : ℤ) : Reader Histogram := do
  let buckets ← Reader.times readBucket (turns n_buckets)
  return { centers := buckets.map (·.1), counts := buckets.map (·.2.1), cdfs := buckets.map (·.2.2), unit }

def read_binary_output : Reader Output := do
  let header ← readHeader
  let throughput ← stages.mapM fun stage => (stage, ·) <$> readThroughput header.num_throughput_windows
  let unit ← latency_types.mapM fun lt => (lt, ·) <$> readUnit
  let histogram ← unit.mapM fun (lt, unit_id) => (lt, ·) <$> readHistogram header.num_buckets unit_id
  return { header, throughput, unit, histogram }

namespace Analyzed

variable (a : Analyzed)

-- What was written for a stage and for a latency.
def y : Stage → Fin (turns a.num_throughput_windows.toInt) → Double
  | .submit => a.submit_y
  | .sched => a.sched_y
  | .recv => a.recv_y
  | .done => a.done_y
  | .cleanup => a.cleanup_y

def unit : LatencyType → TimeUnit
  | .e2e => a.e2e_unit
  | .submit_sched => a.submit_sched_unit
  | .sched_recv => a.sched_recv_unit
  | .recv_done => a.recv_done_unit
  | .done_cleanup => a.done_cleanup_unit

def hist : LatencyType → Fin (turns a.num_buckets.toInt) → HistogramBucket
  | .e2e => a.e2e_hist
  | .submit_sched => a.submit_sched_hist
  | .sched_recv => a.sched_recv_hist
  | .recv_done => a.recv_done_hist
  | .done_cleanup => a.done_cleanup_hist

def header : Header where
  total_txns := a.num_txns.toInt
  complete_txns := a.complete_txns.toInt
  filtered_count := a.filtered_count.toInt
  num_buckets := a.num_buckets.toInt
  cpu_freq := a.cpu_freq
  num_puppets := a.num_puppets.toInt
  average_throughput := a.average_throughput
  num_throughput_windows := a.num_throughput_windows.toInt
  window_seconds := a.window_seconds

def throughput (stage : Stage) : Series where
  times := List.ofFn a.throughput_x
  values := List.ofFn (a.y stage)

def histogram (lt : LatencyType) : Histogram where
  centers := List.ofFn fun i => (a.hist lt i).center
  counts := List.ofFn fun i => (a.hist lt i).count.toInt
  cdfs := List.ofFn fun i => (a.hist lt i).cdf
  unit := (a.unit lt).value.toInt

end Analyzed

open Reader

theorem reads_unpackInt (x : Word) : Reads unpackInt (fwriteInt x) x.toInt :=
  (reads_layout Layout.word x).map BitVec.toInt

theorem reads_unpackDouble (x : Double) : Reads unpackDouble (fwriteDouble x) x :=
  reads_layout Layout.doubleWord x

theorem reads_readHeader (a : Analyzed) : Reads readHeader (fwriteHeader a) a.header :=
  (reads_unpackInt _).bind <| (reads_unpackInt _).bind <| (reads_unpackInt _).bind <|
    (reads_unpackInt _).bind <| (reads_unpackDouble _).bind <| (reads_unpackInt _).bind <|
      (reads_unpackDouble _).bind <| (reads_unpackInt _).bind <| (reads_unpackDouble _).bind <|
        reads_pure _

section

variable {n : ℤ}

theorem reads_readThroughput (throughput_x y : Fin (turns n) → Double) :
    Reads (readThroughput n) (fwriteThroughput throughput_x y) ⟨List.ofFn throughput_x, List.ofFn y⟩ := by
  have hwindow (i : Fin (turns n)) :
      Reads readWindow (fwriteDouble (throughput_x i) ++ fwriteDouble (y i)) (throughput_x i, y i) :=
    (reads_unpackDouble _).bind <| (reads_unpackDouble _).bind_pure _
  have hwindows := reads_times fun i (_ : i ∈ List.finRange (turns n)) => hwindow i
  rw [List.length_finRange] at hwindows
  have hread := hwindows.bind_pure fun windows => Series.mk (windows.map (·.1)) (windows.map (·.2))
  rw [List.map_map, List.map_map, ← List.ofFn_eq_map, ← List.ofFn_eq_map] at hread
  exact hread

theorem reads_readHistogram (hist : Fin (turns n) → HistogramBucket) (unit : ℤ) :
    Reads (readHistogram n unit) (fwriteHistogram hist)
      ⟨List.ofFn fun i => (hist i).center, List.ofFn fun i => (hist i).count.toInt,
        List.ofFn fun i => (hist i).cdf, unit⟩ := by
  have hbucket (i : Fin (turns n)) : Reads readBucket
      (fwriteDouble (hist i).center ++ (fwriteInt (hist i).count ++ fwriteDouble (hist i).cdf))
      ((hist i).center, (hist i).count.toInt, (hist i).cdf) :=
    (reads_unpackDouble _).bind <| (reads_unpackInt _).bind <| (reads_unpackDouble _).bind_pure _
  have hbuckets := reads_times fun i (_ : i ∈ List.finRange (turns n)) => hbucket i
  rw [List.length_finRange] at hbuckets
  have hread := hbuckets.bind_pure fun buckets =>
    Histogram.mk (buckets.map (·.1)) (buckets.map (·.2.1)) (buckets.map (·.2.2)) unit
  rw [List.map_map, List.map_map, List.map_map, ← List.ofFn_eq_map, ← List.ofFn_eq_map,
    ← List.ofFn_eq_map] at hread
  exact hread

theorem reads_readUnit (unit : TimeUnit) : Reads readUnit (fwriteInt unit.value) unit.value.toInt := by
  have hread := (reads_unpackInt unit.value).bind_pure fun unit_id => if 0 ≤ unit_id ∧ unit_id ≤ 3 then unit_id else 1
  have hunit : 0 ≤ unit.value.toInt ∧ unit.value.toInt ≤ 3 := by cases unit <;> decide
  rw [if_pos hunit] at hread
  exact hread

end

section

variable (a : Analyzed)

theorem reads_stages :
    Reads (stages.mapM fun stage => (stage, ·) <$> readThroughput a.num_throughput_windows.toInt)
      (stages.flatMap fun stage => fwriteThroughput a.throughput_x (a.y stage))
      (stages.map fun stage => (stage, a.throughput stage)) :=
  reads_mapM fun stage _ => (reads_readThroughput a.throughput_x (a.y stage)).map (stage, ·)

theorem reads_units :
    Reads (latency_types.mapM fun lt => (lt, ·) <$> readUnit)
      (latency_types.flatMap fun lt => fwriteInt (a.unit lt).value)
      (latency_types.map fun lt => (lt, (a.unit lt).value.toInt)) :=
  reads_mapM fun lt _ => (reads_readUnit (a.unit lt)).map (lt, ·)

theorem reads_histograms :
    Reads ((latency_types.map fun lt => (lt, (a.unit lt).value.toInt)).mapM fun (lt, unit_id) =>
        (lt, ·) <$> readHistogram a.num_buckets.toInt unit_id)
      (latency_types.flatMap fun lt => fwriteHistogram (a.hist lt))
      (latency_types.map fun lt => (lt, a.histogram lt)) := by
  rw [List.mapM_map]
  exact reads_mapM fun lt _ => (reads_readHistogram (a.hist lt) _).map (lt, ·)

-- All bytes of the file are read, and each array is found where it was written.
theorem read_binary_output_analyzedBin :
    read_binary_output (analyzedBin a) = some (
      { header := a.header
        throughput := stages.map fun stage => (stage, a.throughput stage)
        unit := latency_types.map fun lt => (lt, (a.unit lt).value.toInt)
        histogram := latency_types.map fun lt => (lt, a.histogram lt) }, []) := by
  have hread : Reads read_binary_output _ _ := (reads_readHeader a).bind <| (reads_stages a).bind <|
    (reads_units a).bind <| (reads_histograms a).bind_pure _
  have hall := hread []
  rw [List.append_nil] at hall
  exact hall

end

end Puppetmaster.Runner.Binary
