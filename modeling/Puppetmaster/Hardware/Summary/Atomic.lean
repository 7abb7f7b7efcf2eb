import Puppetmaster.Hardware.Summary.Flat
import Puppetmaster.Hardware.Summary.Rules

namespace Puppetmaster.Hardware

open Library

-- What a summary is for: a filter that adds and checks in one piece. It is busy from
-- the start of an operation until the operation is finished.
structure AtomicSummary where
  contents : BloomMemory
  state : SummaryState
  txn : TxnFingerprint

namespace AtomicSummary

def reset (t : TxnFingerprint) : AtomicSummary := ⟨fun _ _ => 0, .Resetting, t⟩

def verdict (mem : BloomMemory) (t : TxnFingerprint) : Bool := checkResultIsGood (checkFull mem t)

def isFree (a : AtomicSummary) : Bool := a.state = .Free

def txns_put (a : AtomicSummary) (t : TxnFingerprint) : Option AtomicSummary := do
  require (a.state = .Free)
  some { contents := addAll a.contents t, state := .Adding, txn := t }

def checks_request_put (a : AtomicSummary) (t : TxnFingerprint) : Option AtomicSummary := do
  require (a.state = .Free)
  some { a with state := .Checking, txn := t }

def checks_response_get (a : AtomicSummary) : Option (Bool × AtomicSummary) := do
  require (a.state = .Checking)
  some (verdict a.contents a.txn, { a with state := .Free })

-- The contents a copy leaves are those the other summary had.
def startCopy (a : AtomicSummary) (newContents : BloomMemory) : Option AtomicSummary := do
  require (a.state = .Free)
  some { a with contents := newContents, state := .Copying }

-- resetDone, addDone or copyDone
def finish (a : AtomicSummary) : Option AtomicSummary := do
  require (a.state = .Resetting ∨ a.state = .Adding ∨ a.state = .Copying)
  some { a with state := .Free }

theorem verdict_iff (mem : BloomMemory) (t : TxnFingerprint) :
    verdict mem t = true ↔ Bloom.Compatible (marked mem) t.objs := checkFull_good_iff mem t

theorem txns_put_eq_some {a b : AtomicSummary} {t : TxnFingerprint} :
    a.txns_put t = some b ↔
      a.state = .Free ∧ { contents := addAll a.contents t, state := .Adding, txn := t } = b := by
  simp [txns_put, Option.bind_eq_some_iff]

theorem checks_request_put_eq_some {a b : AtomicSummary} {t : TxnFingerprint} :
    a.checks_request_put t = some b ↔
      a.state = .Free ∧ { a with state := .Checking, txn := t } = b := by
  simp [checks_request_put, Option.bind_eq_some_iff]

theorem checks_response_get_eq_some {a b : AtomicSummary} {answer : Bool} :
    a.checks_response_get = some (answer, b) ↔
      a.state = .Checking ∧ verdict a.contents a.txn = answer ∧ { a with state := .Free } = b := by
  simp [checks_response_get, Option.bind_eq_some_iff]

theorem startCopy_eq_some {a b : AtomicSummary} {newContents : BloomMemory} :
    a.startCopy newContents = some b ↔
      a.state = .Free ∧ { a with contents := newContents, state := .Copying } = b := by
  simp [startCopy, Option.bind_eq_some_iff]

theorem finish_eq_some {a b : AtomicSummary} :
    a.finish = some b ↔ (a.state = .Resetting ∨ a.state = .Adding ∨ a.state = .Copying) ∧
      { a with state := .Free } = b := by
  simp [finish, Option.bind_eq_some_iff]

-- The atomic filter under the labels of mkSummary: the chunk by chunk rules change
-- nothing, and a copy is not an operation of the filter alone.
def follow (a : AtomicSummary) : Summary.Label → Option AtomicSummary
  | .requestChunks | .doReset | .doAdd_resp | .doCheck_resp => some a
  | .resetDone _ | .addDone _ => a.finish
  | .txns_put t _ => a.txns_put t
  | .checks_request_put t => a.checks_request_put t
  | .checks_response_get answer _ => do
      let (verdict, next) ← a.checks_response_get
      require (answer = verdict)
      some next
  | .copyDone _ | .startCopy .. | .getChunk_get _ | .setChunk_put _ => none

theorem follow_checks_response_get {a b : AtomicSummary} {answer : Bool} {u : Undefined} :
    a.follow (.checks_response_get answer u) = some b ↔ a.checks_response_get = some (answer, b) := by
  simp only [follow, Option.bind_eq_bind, Option.bind_eq_some_iff, Prod.exists, require_eq_some,
    exists_const, Option.some.injEq]
  constructor
  · rintro ⟨v, next, h, rfl, rfl⟩
    exact h
  · intro h
    exact ⟨answer, b, h, rfl, rfl⟩

end AtomicSummary

end Puppetmaster.Hardware
