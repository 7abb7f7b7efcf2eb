import Puppetmaster.Hardware.Conflict
import Puppetmaster.Hardware.Summary.Tracks

namespace Puppetmaster.Hardware.Summary

open Library Library.Transition

def Label.addedTxn : Label → Option TxnFingerprint
  | .txns_put t _ => some t
  | _ => none

def Label.checkedTxn : Label → Option TxnFingerprint
  | .checks_request_put t => some t
  | _ => none

def added (labels : List Label) : List TxnFingerprint := trace Label.addedTxn labels

def lastCheck (labels : List Label) : Option TxnFingerprint :=
  (trace Label.checkedTxn labels).getLast?

-- The locations of all fingerprints added so far. Nothing can be added between the
-- request of a Check and its response.
def union (labels : List Label) : Set (BloomPartIndex × BloomPartLocation) :=
  {c | ∃ t ∈ added labels, ∃ locs ∈ t.objs, c.2 = locs c.1}

-- What a run should show: the memory of a Free summary is the union of what was
-- added, and a Check answers by that union.
def Answers (labels : List Label) (s : Summary) : Prop :=
  (s.state = .Free → marked s.bloom = union labels) ∧
    ∀ answer u next, s.step (.checks_response_get answer u) = some next →
      ∃ t, lastCheck labels = some t ∧
        (answer = true ↔ ∀ locs ∈ t.objs, ¬∀ j, (j, locs j) ∈ union labels)

-- The atomic filter holds what was added and checks the fingerprint asked for last.
structure Recorded (labels : List Label) (a : AtomicSummary) : Prop where
  contents : a.contents = (added labels).foldl addAll (fun _ _ => 0)
  checking : a.state = .Checking → lastCheck labels = some a.txn

-- A label that neither adds nor asks leaves the record as it is.
theorem Recorded.quiet {labels : List Label} {label : Label} {a b : AtomicSummary}
    (h : Recorded labels a) (hadd : label.addedTxn = none) (hask : label.checkedTxn = none)
    (hcontents : b.contents = a.contents)
    (hchecking : b.state = .Checking → a.state = .Checking ∧ b.txn = a.txn) :
    Recorded (labels ++ [label]) b where
  contents := by rw [hcontents, h.contents, added, added, trace_snoc_none _ labels hadd]
  checking hb := by
    obtain ⟨ha, htxn⟩ := hchecking hb
    rw [lastCheck, trace_snoc_none _ labels hask, htxn]
    exact h.checking ha

theorem Recorded.step {labels : List Label} {label : Label} {a b : AtomicSummary}
    (h : Recorded labels a) (hstep : a.follow label = some b) :
    Recorded (labels ++ [label]) b := by
  cases label with
  | requestChunks | doReset | doAdd_resp | doCheck_resp =>
      obtain rfl := Option.some.inj hstep
      exact h.quiet rfl rfl rfl fun hb => ⟨hb, rfl⟩
  | resetDone u | addDone u =>
      obtain ⟨-, rfl⟩ := AtomicSummary.finish_eq_some.mp hstep
      exact h.quiet rfl rfl rfl nofun
  | txns_put t u =>
      obtain ⟨-, rfl⟩ := AtomicSummary.txns_put_eq_some.mp hstep
      refine ⟨?_, nofun⟩
      rw [added, trace_snoc_some Label.addedTxn labels rfl, List.foldl_append, ← added, ← h.contents]
      rfl
  | checks_request_put t =>
      obtain ⟨-, rfl⟩ := AtomicSummary.checks_request_put_eq_some.mp hstep
      refine ⟨?_, fun _ => ?_⟩
      · rw [added, trace_snoc_none Label.addedTxn labels rfl]
        exact h.contents
      · rw [lastCheck, trace_snoc_some Label.checkedTxn labels rfl, List.getLast?_concat]
  | checks_response_get answer u =>
      obtain ⟨-, -, rfl⟩ := AtomicSummary.checks_response_get_eq_some.mp
        (AtomicSummary.follow_checks_response_get.mp hstep)
      exact h.quiet rfl rfl rfl nofun
  | copyDone u | startCopy newCount oldCount u | getChunk_get data | setChunk_put data =>
      simp [AtomicSummary.follow] at hstep

theorem recorded_of_run {t : TxnFingerprint} {labels : List Label} {a : AtomicSummary}
    (hrun : Run (Of AtomicSummary.follow) (AtomicSummary.reset t) labels a) :
    Recorded labels a :=
  hrun.history Recorded ⟨rfl, fun h => by simp [AtomicSummary.reset] at h⟩
    fun _ _ _ _ h hstep => h.step hstep

theorem Recorded.marked_eq {labels : List Label} {a : AtomicSummary} (h : Recorded labels a) :
    marked a.contents = union labels := by
  ext c
  rw [h.contents, marked_foldl_addAll, Bloom.mem_insertList]
  simp [union, mem_marked]

-- Over every run of a client that adds and checks, and collects its Checks drained.
theorem check_answers (mem : BloomMemory) (u : Undefined) (labels : List Label) (s : Summary)
    (hrun : Run DrainedStep (reset mem u) labels s) : Answers labels s := by
  obtain ⟨a, habstract, htracks⟩ := refines_atomic hrun
  have hrecord := recorded_of_run habstract
  constructor
  · intro hfree
    rw [← (htracks.free hfree).contents, hrecord.marked_eq]
  · intro answer u next hstep
    cases fires_of_step hstep with
    | checks_response_get hresp hstate hanswer =>
        refine ⟨a.txn, hrecord.checking (htracks.state.trans hstate), ?_⟩
        rw [hanswer, ← htracks.answer_eq hresp hstate, AtomicSummary.verdict_iff, hrecord.marked_eq]
        rfl

def undefinedZero : Undefined where
  txn := hashTxn (addTransaction writesObjectZero)
  compat := CheckResult.zero

-- All four locations of this object lie in chunk 0.
def objectZero : TxnFingerprint := hashTxn (addTransaction writesObjectZero)

def resetRun : List Label := List.replicate 4 .doReset ++ [.resetDone undefinedZero]

-- Add a fingerprint, one chunk after the other.
def addRun (t : TxnFingerprint) : List Label :=
  .txns_put t undefinedZero :: (List.replicate 4 [.requestChunks, .doAdd_resp]).flatten ++
    [.addDone undefinedZero]

-- A Check that the response of chunk 0 ends, with `ahead` more reads accepted by then.
def stoppedRun (t : TxnFingerprint) (ahead : ℕ) : List Label :=
  .checks_request_put t :: List.replicate (ahead + 1) .requestChunks ++ [.doCheck_resp]

-- A Check whose four chunks are all taken.
def wholeRun (t : TxnFingerprint) : List Label :=
  .checks_request_put t :: (List.replicate 4 [.requestChunks, .doCheck_resp]).flatten

def writes (obj : ObjectId) : TxnFingerprint := hashTxn (addTransaction (.writing 0 obj))

def drainedStart : Summary := reset (fun _ _ => 0) undefinedZero

-- A Check that stops early and leaves no read behind, another Add, a Check that passes, and
-- one that fails at the last chunk.
def drainedRun : List Label :=
  resetRun ++ addRun objectZero ++ stoppedRun objectZero 0 ++
    [.checks_response_get false undefinedZero] ++ addRun (writes 1) ++ wholeRun (writes 2) ++
    [.checks_response_get true undefinedZero] ++ wholeRun (writes 1)

theorem check_answers_drained :
    ∃ s next, Run DrainedStep drainedStart drainedRun s ∧ Answers drainedRun s ∧
      s.step (.checks_response_get false undefinedZero) = some next := by
  have hexec : ((exec (guarded step fun s label => AddOrCheck label ∧ CollectsDrained s label)
      drainedStart drainedRun).bind fun s =>
        s.step (.checks_response_get false undefinedZero)).isSome = true := by
    decide +kernel
  obtain ⟨next, hnext⟩ := Option.isSome_iff_exists.mp hexec
  obtain ⟨s, hs, hget⟩ := Option.bind_eq_some_iff.mp hnext
  exact ⟨s, next, run_meeting_of_exec hs, check_answers _ _ _ _ (run_meeting_of_exec hs), hget⟩

-- With one read ahead, the response of chunk 1 stays behind and the next Check takes
-- it for chunk 0.
def staleRun : List Label :=
  resetRun ++ addRun objectZero ++ stoppedRun objectZero 1 ++
    [.checks_response_get false undefinedZero, .checks_request_put objectZero, .doCheck_resp] ++
    (List.replicate 3 [.requestChunks, .doCheck_resp]).flatten

theorem stale_check_compatible :
    ∃ s, Run (Meeting step fun _ label => AddOrCheck label) drainedStart staleRun s ∧
      ¬Answers staleRun s := by
  have hexec : ((exec (guarded step fun _ label => AddOrCheck label) drainedStart staleRun).bind
      fun s => s.step (.checks_response_get true undefinedZero)).isSome = true := by
    decide +kernel
  obtain ⟨next, hnext⟩ := Option.isSome_iff_exists.mp hexec
  obtain ⟨s, hs, hget⟩ := Option.bind_eq_some_iff.mp hnext
  refine ⟨s, run_meeting_of_exec hs, fun hanswers => ?_⟩
  obtain ⟨t, ht, hanswer⟩ := hanswers.2 true undefinedZero next hget
  obtain rfl : objectZero = t := Option.some.inj ht
  have hadded : objectZero ∈ added staleRun := by
    rw [show added staleRun = [objectZero] from rfl]
    exact List.mem_singleton_self _
  have hobj : hashObject 0 ∈ objectZero.objs := Or.inr ⟨0, rfl⟩
  exact hanswer.mp rfl _ hobj fun j => ⟨objectZero, hadded, _, hobj, rfl⟩

end Puppetmaster.Hardware.Summary
