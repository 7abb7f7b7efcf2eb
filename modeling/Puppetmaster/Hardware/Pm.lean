import Puppetmaster.Hardware.Summary.Atomic
import Puppetmaster.Hardware.TxnHasher

namespace Puppetmaster.Hardware

open Library

-- Puppetmaster.bsv, module mkPuppetmaster with its mkTxnHasher. Each summary is the
-- filter it refines, and its rules from the start of an operation to Free are one.

abbrev InputBufferSize : ℕ := 56
abbrev LookaheadBufferSize : ℕ := 2
abbrev ActivePerPuppet : ℕ := 7
abbrev SchedSize : ℕ := ActivePerPuppet * MaxNumPuppets

-- TIndex#(ActivePerPuppet) counts to the power of two above ActivePerPuppet.
abbrev ActiveEntries : ℕ := 8

theorem activeEntries_ne_zero : ActiveEntries ≠ 0 := by decide

instance : @NeZero ℕ Zero.ofOfNat0 ActiveEntries := ⟨activeEntries_ne_zero⟩

abbrev PuppetId := Fin MaxNumPuppets
abbrev PuppetCount := BitVec 5

-- findElem(True, v)
def findElem (v : PuppetId → Bool) : Option PuppetId := (List.finRange MaxNumPuppets).find? v

structure ScheduleMessage where
  txnId : TransactionId
  puppetId : PuppetId
  deriving DecidableEq

structure WorkDoneMessage where
  txnId : TransactionId
  puppetId : PuppetId
  deriving DecidableEq

inductive PuppetmasterState
  | Normal | Switching
  deriving DecidableEq

-- Where lookaheadFSM stands: step 1 starts it, steps 2 and 3 are still to come.
inductive LookaheadStep
  | idle | step2 | step3
  deriving DecidableEq

-- A transaction as it was put, with the number of the put: two puts of one transaction
-- can be told apart. Nothing in the module looks at the number.
structure Submitted where
  serial : ℕ
  txn : Transaction
  deriving DecidableEq

-- A fingerprint in a queue, with the transaction it was computed from.
structure Hashed where
  source : Submitted
  fingerprint : TxnFingerprint
  hashed : fingerprint = hashTxn source.txn
  deriving DecidableEq

def Submitted.hash (x : Submitted) : Hashed := ⟨x, hashTxn x.txn, rfl⟩

@[simp] theorem Submitted.hash_source (x : Submitted) : x.hash.source = x := rfl

def Hashed.message (txn : Hashed) (pid : PuppetId) : ScheduleMessage :=
  ⟨txn.fingerprint.txnId, pid⟩

structure Pm where
  -- the number of puts so far
  accepted : ℕ
  numPuppets : PuppetCount
  hasherIn : Fifo Submitted 1
  hasherOut : Fifo Hashed 1
  inputQ : Fifo Hashed InputBufferSize
  state : PuppetmasterState
  lookaheadReinsert : Fifo Hashed 1
  lookaheadBuffer : Fifo Hashed LookaheadBufferSize
  mainSummary : AtomicSummary
  shadowSummary : AtomicSummary
  shadowQ : Fifo Hashed 2
  schedQ : Fifo ScheduleMessage (SchedSize + 1)
  puppetTxns : PuppetId → Fifo Hashed ActivePerPuppet
  puppetArbResult : PuppetId → Bool
  isCompat : Bool
  numTxnScheduled : BitVec 8
  lookaheadFailCount : BitVec 2
  lookaheadFSM : LookaheadStep
  workDoneQ : Fifo WorkDoneMessage (1 + SchedSize)
  recordedActiveTxnSize : PuppetId → BitVec 4
  shadowPuppetIndex : PuppetId
  shadowEntryIndex : Fin ActiveEntries
  shadowComplete : Bool

namespace Pm

-- Rules and methods, with the values that pass through an interface and the
-- transactions that are checked, moved, walked over or removed.
inductive Label
  | transactions_put (txn : Submitted)
  | doHash
  | hasherToInputQ
  | drainInput
  | pipePuppetArbResult (grant : PuppetId → Bool)
  | drainLookahead (txn : Hashed)
  | lookaheadStep2 (answer : Bool)
  | lookaheadStep3a (txn : Hashed) (pid : PuppetId)
  | lookaheadStep3b (txn : Hashed)
  | shadowUpdateNew
  | shadowUpdateExisting (walked : Option Hashed)
  | clearWorkDone (txn : Hashed) (pid : PuppetId)
  | startRefresh
  | mainFinish
  | shadowFinish
  | switchDone
  | setNumPuppets (n : PuppetCount)
  | scheduled_get (msg : ScheduleMessage)
  | workDone_put (msg : WorkDoneMessage)

-- After reset; isCompat has no reset value.
def reset (isCompat : Bool) (main shadow : TxnFingerprint) : Pm where
  accepted := 0
  numPuppets := 8
  hasherIn := Fifo.empty
  hasherOut := Fifo.empty
  inputQ := Fifo.empty
  state := .Normal
  lookaheadReinsert := Fifo.empty
  lookaheadBuffer := Fifo.empty
  mainSummary := AtomicSummary.reset main
  shadowSummary := AtomicSummary.reset shadow
  shadowQ := Fifo.empty
  schedQ := Fifo.empty
  puppetTxns := fun _ => Fifo.empty
  puppetArbResult := fun _ => false
  isCompat := isCompat
  numTxnScheduled := 0
  lookaheadFailCount := 0
  lookaheadFSM := .idle
  workDoneQ := Fifo.empty
  recordedActiveTxnSize := fun _ => 0
  shadowPuppetIndex := 0
  shadowEntryIndex := 0
  shadowComplete := false

def transactions_put (s : Pm) (txn : Submitted) : Option Pm := do
  require (txn.serial = s.accepted)
  let hasherIn ← s.hasherIn.enq txn
  some { s with accepted := s.accepted + 1, hasherIn := hasherIn }

def doHash (s : Pm) : Option Pm := do
  let (x, hasherIn) ← s.hasherIn.deq
  let hasherOut ← s.hasherOut.enq x.hash
  some { s with hasherIn := hasherIn, hasherOut := hasherOut }

-- mkConnection(hasher.response, toPut(inputQ))
def hasherToInputQ (s : Pm) : Option Pm := do
  let (txn, hasherOut) ← s.hasherOut.deq
  let inputQ ← s.inputQ.enq txn
  some { s with hasherOut := hasherOut, inputQ := inputQ }

def drainInput (s : Pm) : Option Pm := do
  require (s.state = .Normal)
  if s.lookaheadReinsert.notEmpty = true then do
    let (txn, lookaheadReinsert) ← s.lookaheadReinsert.deq
    let lookaheadBuffer ← s.lookaheadBuffer.enq txn
    some { s with lookaheadReinsert := lookaheadReinsert, lookaheadBuffer := lookaheadBuffer }
  else do
    let (txn, inputQ) ← s.inputQ.deq
    let lookaheadBuffer ← s.lookaheadBuffer.enq txn
    some { s with inputQ := inputQ, lookaheadBuffer := lookaheadBuffer }

-- puppetRequest and the arbiter: puppetIsFree leaves the other entries undefined, so
-- any grant may be piped.
def pipePuppetArbResult (s : Pm) (grant : PuppetId → Bool) : Option Pm :=
  some { s with puppetArbResult := grant }

def freePuppetId (s : Pm) : Option PuppetId := findElem s.puppetArbResult

def hasFreePuppet (s : Pm) : Bool :=
  s.freePuppetId.any fun pid : PuppetId => BitVec.ofNat 5 pid.val < s.numPuppets

-- The predicate of mkFSMWithPred, on every step of the FSM.
def lookaheadPred (s : Pm) : Prop :=
  s.lookaheadBuffer.notEmpty = true ∧ s.hasFreePuppet = true

instance (s : Pm) : Decidable s.lookaheadPred :=
  inferInstanceAs (Decidable (_ ∧ _))

def drainLookahead (s : Pm) : Option (Hashed × Pm) := do
  require (s.lookaheadPred ∧ s.state = .Normal)
  require (s.lookaheadFSM = .idle)
  let txn ← s.lookaheadBuffer.first
  let mainSummary ← s.mainSummary.checks_request_put txn.fingerprint
  some (txn, { s with mainSummary := mainSummary, lookaheadFSM := .step2 })

-- Step 2 for any answer of the summary.
def lookaheadStep2 (s : Pm) (answer : Bool) : Option Pm := do
  require (s.lookaheadPred ∧ s.lookaheadFSM = .step2)
  let (_, mainSummary) ← s.mainSummary.checks_response_get
  some { s with mainSummary := mainSummary, isCompat := answer, lookaheadFSM := .step3 }

def lookaheadStep3a (s : Pm) : Option ((Hashed × PuppetId) × Pm) := do
  require (s.lookaheadPred ∧ s.lookaheadFSM = .step3 ∧ s.isCompat = true)
  let pid ← s.freePuppetId
  let (txn, lookaheadBuffer) ← s.lookaheadBuffer.deq
  let mainSummary ← s.mainSummary.txns_put txn.fingerprint
  let shadowQ ← s.shadowQ.enq txn
  let schedQ ← s.schedQ.enq (txn.message pid)
  let txns ← (s.puppetTxns pid).enq txn
  some ((txn, pid), { s with
    lookaheadFailCount := 0
    lookaheadBuffer := lookaheadBuffer
    mainSummary := mainSummary
    shadowQ := shadowQ
    schedQ := schedQ
    numTxnScheduled := s.numTxnScheduled + 1
    puppetTxns := Function.update s.puppetTxns pid txns
    lookaheadFSM := .idle })

def lookaheadStep3b (s : Pm) : Option (Hashed × Pm) := do
  require (s.lookaheadPred ∧ s.lookaheadFSM = .step3 ∧ s.isCompat = false)
  let (txn, lookaheadBuffer) ← s.lookaheadBuffer.deq
  let lookaheadReinsert ← s.lookaheadReinsert.enq txn
  some (txn, { s with
    lookaheadFailCount := s.lookaheadFailCount + 1
    lookaheadBuffer := lookaheadBuffer
    lookaheadReinsert := lookaheadReinsert
    lookaheadFSM := .idle })

def shadowUpdateNew (s : Pm) : Option Pm := do
  let (txn, shadowQ) ← s.shadowQ.deq
  let shadowSummary ← s.shadowSummary.txns_put txn.fingerprint
  some { s with shadowQ := shadowQ, shadowSummary := shadowSummary }

-- The entry the walk stands on, if it is valid.
def walkEntry (s : Pm) : Option Hashed :=
  let txns := (s.puppetTxns s.shadowPuppetIndex).items
  if s.shadowEntryIndex.val < txns.length ∧
      s.shadowEntryIndex.val < (s.recordedActiveTxnSize s.shadowPuppetIndex).toNat then
    txns[s.shadowEntryIndex.val]?
  else none

def shadowUpdateExisting (s : Pm) : Option (Option Hashed × Pm) := do
  require (s.shadowComplete = false)
  match s.walkEntry with
  | some txn => do
      let shadowSummary ← s.shadowSummary.txns_put txn.fingerprint
      some (some txn, { s with
        shadowSummary := shadowSummary
        shadowEntryIndex := s.shadowEntryIndex + 1 })
  | none =>
      if BitVec.ofNat 5 s.shadowPuppetIndex.val < s.numPuppets - 1 then
        some (none, { s with
          shadowPuppetIndex := s.shadowPuppetIndex + 1
          shadowEntryIndex := 0 })
      else
        some (none, { s with
          shadowPuppetIndex := 0
          shadowEntryIndex := 0
          shadowComplete := true })

-- The condition of the dynamicAssert of clearWorkDone on the oldest work-done message.
def workDoneMatches (s : Pm) (done : WorkDoneMessage) : Bool :=
  (s.puppetTxns done.puppetId).first.any fun txn => done.txnId == txn.fingerprint.txnId

-- The list named in the message is dequeued whether or not the txnId matches.
def clearWorkDone (s : Pm) : Option ((Hashed × PuppetId) × Pm) := do
  let (done, workDoneQ) ← s.workDoneQ.deq
  let (txn, txns) ← (s.puppetTxns done.puppetId).deq
  some ((txn, done.puppetId), { s with
    numTxnScheduled := s.numTxnScheduled - 1
    puppetTxns := Function.update s.puppetTxns done.puppetId txns
    workDoneQ := workDoneQ })

def startRefresh (s : Pm) : Option Pm := do
  require (s.state = .Normal ∧
    s.lookaheadFailCount = BitVec.ofNat 2 LookaheadBufferSize ∧ s.shadowComplete = true)
  let shadowSummary ← s.shadowSummary.startCopy fun _ _ => 0
  let mainSummary ← s.mainSummary.startCopy s.shadowSummary.contents
  some { s with
    lookaheadFailCount := 0
    shadowSummary := shadowSummary
    mainSummary := mainSummary
    state := .Switching }

-- resetDone, addDone or copyDone of a summary
def mainFinish (s : Pm) : Option Pm := do
  let mainSummary ← s.mainSummary.finish
  some { s with mainSummary := mainSummary }

def shadowFinish (s : Pm) : Option Pm := do
  let shadowSummary ← s.shadowSummary.finish
  some { s with shadowSummary := shadowSummary }

def switchDone (s : Pm) : Option Pm := do
  require (s.state = .Switching ∧ s.mainSummary.isFree = true ∧ s.shadowSummary.isFree = true)
  some { s with
    shadowPuppetIndex := 0
    shadowEntryIndex := 0
    shadowComplete := false
    state := .Normal }

def setNumPuppets (s : Pm) (n : PuppetCount) : Option Pm :=
  some { s with numPuppets := n }

def scheduled_get (s : Pm) : Option (ScheduleMessage × Pm) := do
  let (msg, schedQ) ← s.schedQ.deq
  some (msg, { s with schedQ := schedQ })

def workDone_put (s : Pm) (msg : WorkDoneMessage) : Option Pm := do
  let workDoneQ ← s.workDoneQ.enq msg
  some { s with workDoneQ := workDoneQ }

def step (s : Pm) : Label → Option Pm
  | .transactions_put txn => s.transactions_put txn
  | .doHash => s.doHash
  | .hasherToInputQ => s.hasherToInputQ
  | .drainInput => s.drainInput
  | .pipePuppetArbResult grant => s.pipePuppetArbResult grant
  | .drainLookahead txn => expect txn s.drainLookahead
  | .lookaheadStep2 answer => s.lookaheadStep2 answer
  | .lookaheadStep3a txn pid => expect (txn, pid) s.lookaheadStep3a
  | .lookaheadStep3b txn => expect txn s.lookaheadStep3b
  | .shadowUpdateNew => s.shadowUpdateNew
  | .shadowUpdateExisting walked => expect walked s.shadowUpdateExisting
  | .clearWorkDone txn pid => expect (txn, pid) s.clearWorkDone
  | .startRefresh => s.startRefresh
  | .mainFinish => s.mainFinish
  | .shadowFinish => s.shadowFinish
  | .switchDone => s.switchDone
  | .setNumPuppets n => s.setNumPuppets n
  | .scheduled_get msg => expect msg s.scheduled_get
  | .workDone_put msg => s.workDone_put msg

end Pm

end Puppetmaster.Hardware
