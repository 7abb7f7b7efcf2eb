import Puppetmaster.Hardware.Summary.Chunk
import Puppetmaster.Library.Fifo
import Puppetmaster.Library.Guard

namespace Puppetmaster.Hardware

open Library

-- Summary.bsv, module mkSummary. One rule or method fires at a time; a cycle of the
-- hardware is some sequence of them.

inductive SummaryState
  | Resetting | Free | Adding | Checking | Copying
  deriving DecidableEq

-- What `?` happens to leave in the registers that hold no defined value when Free.
structure Undefined where
  txn : TxnFingerprint
  compat : CheckResult

-- Port A of the block RAM writes at once. Port B answers reads in order through a
-- queue of depth 3; a response is what the chunk held when the read was accepted.
structure Summary where
  bloom : BloomMemory
  responses : Fifo BloomChunkParts 3
  state : SummaryState
  txn : TxnFingerprint
  compat : CheckResult
  count : BloomObjCount
  mReqChunk : Option BloomChunkIndex
  mRespChunk : Option BloomChunkIndex

namespace Summary

-- Rules and methods, with the values a client passes in and gets back.
inductive Label
  | requestChunks
  | doReset
  | resetDone (u : Undefined)
  | doAdd_resp
  | addDone (u : Undefined)
  | doCheck_resp
  | copyDone (u : Undefined)
  | txns_put (t : TxnFingerprint) (u : Undefined)
  | checks_request_put (t : TxnFingerprint)
  | checks_response_get (answer : Bool) (u : Undefined)
  | startCopy (newCount oldCount : BloomObjCount) (u : Undefined)
  | getChunk_get (data : BloomChunkParts)
  | setChunk_put (data : BloomChunkParts)

-- After reset; neither the memory nor txn and compat have a reset value.
def reset (mem : BloomMemory) (u : Undefined) : Summary where
  bloom := mem
  responses := Fifo.empty
  state := .Resetting
  txn := u.txn
  compat := u.compat
  count := 0
  mReqChunk := none
  mRespChunk := some 0

def nextChunk (c : BloomChunkIndex) : Option BloomChunkIndex :=
  if h : c.val < NumBloomChunks - 1 then some ⟨c.val + 1, Nat.add_lt_of_lt_sub h⟩ else none

-- The counting loop of txns.put over one vector of objects.
def countValid {n : ℕ} (objs : Fin n → Option BloomLocation) (start : BloomObjCount) :
    BloomObjCount :=
  (List.finRange n).foldl (fun acc i => if (objs i).isSome then acc + 1 else acc) start

def newObjs (t : TxnFingerprint) : BloomObjCount :=
  countValid t.writeObjs (countValid t.readObjs 0)

-- How resetDone, addDone, copyDone and checks.response.get leave the registers.
def free (s : Summary) (u : Undefined) : Summary :=
  { s with txn := u.txn, state := .Free, mReqChunk := none, mRespChunk := none, compat := u.compat }

def requestChunks (s : Summary) : Option Summary := do
  let reqChunk ← s.mReqChunk
  require (s.state ≠ .Free)
  let responses ← s.responses.enq (s.bloom reqChunk)
  some { s with responses := responses, mReqChunk := nextChunk reqChunk }

def doReset (s : Summary) : Option Summary := do
  let respChunk ← s.mRespChunk
  require (s.state = .Resetting)
  some { s with
    bloom := Function.update s.bloom respChunk fun _ => 0
    mRespChunk := nextChunk respChunk }

-- resetDone, addDone and copyDone
def done (operation : SummaryState) (s : Summary) (u : Undefined) : Option Summary := do
  require (s.mRespChunk = none)
  require (s.state = operation)
  some (s.free u)

def resetDone := done .Resetting
def addDone := done .Adding
def copyDone := done .Copying

def doAdd_resp (s : Summary) : Option Summary := do
  let respChunk ← s.mRespChunk
  require (s.state = .Adding)
  let (data, responses) ← s.responses.deq
  let newData := (checkOrAddToChunk data respChunk s.txn).2
  some { s with
    responses := responses
    bloom := Function.update s.bloom respChunk newData
    mRespChunk := nextChunk respChunk }

def doCheck_resp (s : Summary) : Option Summary := do
  let respChunk ← s.mRespChunk
  require (s.state = .Checking)
  let (data, responses) ← s.responses.deq
  let newCompat := s.compat.or (checkOrAddToChunk data respChunk s.txn).1
  some { s with
    responses := responses
    compat := newCompat
    mRespChunk := if checkResultIsGood newCompat = true then nextChunk respChunk else none }

def txns_put (s : Summary) (t : TxnFingerprint) (u : Undefined) : Option Summary := do
  require (s.state = .Free)
  some { s with
    txn := t
    state := .Adding
    mReqChunk := some 0
    mRespChunk := some 0
    compat := u.compat
    count := s.count + newObjs t }

def checks_request_put (s : Summary) (t : TxnFingerprint) : Option Summary := do
  require (s.state = .Free)
  some { s with
    txn := t
    state := .Checking
    mReqChunk := some 0
    mRespChunk := some 0
    compat := CheckResult.zero }

def checks_response_get (s : Summary) (u : Undefined) : Option (Bool × Summary) := do
  require (s.mRespChunk = none)
  require (s.state = .Checking)
  some (checkResultIsGood s.compat, s.free u)

def startCopy (s : Summary) (newCount : BloomObjCount) (u : Undefined) :
    Option (BloomObjCount × Summary) := do
  require (s.state = .Free)
  some (s.count, { s with
    txn := u.txn
    state := .Copying
    mReqChunk := some 0
    mRespChunk := some 0
    compat := u.compat
    count := newCount })

def getChunk_get (s : Summary) : Option (BloomChunkParts × Summary) := do
  require (s.state = .Copying)
  let (data, responses) ← s.responses.deq
  some (data, { s with responses := responses })

def setChunk_put (s : Summary) (data : BloomChunkParts) : Option Summary := do
  let respChunk ← s.mRespChunk
  require (s.state = .Copying)
  some { s with
    bloom := Function.update s.bloom respChunk data
    mRespChunk := nextChunk respChunk }

def isFree (s : Summary) : Bool := s.state = .Free

def step (s : Summary) : Label → Option Summary
  | .requestChunks => s.requestChunks
  | .doReset => s.doReset
  | .resetDone u => s.resetDone u
  | .doAdd_resp => s.doAdd_resp
  | .addDone u => s.addDone u
  | .doCheck_resp => s.doCheck_resp
  | .copyDone u => s.copyDone u
  | .txns_put t u => s.txns_put t u
  | .checks_request_put t => s.checks_request_put t
  | .checks_response_get answer u => expect answer (s.checks_response_get u)
  | .startCopy newCount oldCount u => expect oldCount (s.startCopy newCount u)
  | .getChunk_get data => expect data s.getChunk_get
  | .setChunk_put data => s.setChunk_put data

end Summary

end Puppetmaster.Hardware
