import Puppetmaster.Hardware.ClosedLoop
import Puppetmaster.Hardware.Driver
import Puppetmaster.Hardware.Pm.Walk
import Puppetmaster.Runner.Hwlog2bin

namespace Puppetmaster.Hardware

open Library Library.Transition Runner

-- Connectal.bsv

-- of a multiplexer with two inputs
abbrev TIndex := BitVec 1

structure TopConfig where
  useSimulatedTxnDriver : Bool
  useSimulatedPuppets : Bool
  numPuppets : BitVec 16
  puppetSimCycles : Timestamp
  txnDriverWaitCycles : Timestamp
  deriving DecidableEq

-- Executor.bsv, module mkRealExecutor
structure RealExecutor where
  reqFF : Fifo TransactionId 1
  doneFF : Fifo TransactionId 1

namespace RealExecutor

def request_put (s : RealExecutor) (msg : ScheduleMessage) : Option RealExecutor := do
  let reqFF ← s.reqFF.enq msg.txnId
  some { s with reqFF := reqFF }

-- Every answer names puppet 0.
def response_get (s : RealExecutor) : Option (WorkDoneMessage × RealExecutor) := do
  let (txnId, doneFF) ← s.doneFF.deq
  some (⟨txnId, 0⟩, { s with doneFF := doneFF })

end RealExecutor

-- What the $display calls print.
inductive HwOutput
  | line (l : HwLine)
  | refreshing (cycle : Timestamp)

def Pm.output (s : Pm) (cycle : Timestamp) : Pm.Label → List HwOutput
  | .lookaheadStep3a txn pid => [.line ⟨cycle, txn.fingerprint.txnId, .scheduled pid⟩]
  | .clearWorkDone _ _ => s.workDoneQ.first.toList.map fun done => .line ⟨cycle, done.txnId, .removed⟩
  | .startRefresh => [.refreshing cycle]
  | _ => []

def FakeExecutor.output (s : FakeExecutor) : FakeExecutor.Label → List HwOutput
  | .startWork i => (s.puppetQ i).first.toList.map fun msg =>
      .line ⟨s.cycle, msg.txnId, .executing msg.puppetId⟩
  | .reportDone msg => [.line ⟨s.cycle, msg.txnId, .done msg.puppetId⟩]
  | _ => []

def FakeTxnDriver.output (s : FakeTxnDriver) (txn : Option Transaction) : List HwOutput :=
  txn.toList.map fun txn => .line ⟨s.cycle, txn.txnId, .submitted⟩

-- The rules besides the methods, and besides the tick that all modules share.
def Pm.Label.rule : Pm.Label → Bool
  | .transactions_put _ | .setNumPuppets _ | .scheduled_get _ | .workDone_put _ => false
  | _ => true

def Pm.Label.admits : Pm.Label → Bool
  | .lookaheadStep3a _ _ => true
  | _ => false

def FakeExecutor.Label.rule : FakeExecutor.Label → Bool
  | .fanout | .reportDone _ | .startWork _ => true
  | _ => false

theorem Pm.Label.connected_of_rule {label : Pm.Label} (h : label.rule = true) :
    label.connected = false := by
  cases label <;> first | rfl | exact absurd h (by simp [Pm.Label.rule])

theorem FakeExecutor.Label.connected_of_rule {label : FakeExecutor.Label} (h : label.rule = true) :
    label.connected = false := by
  cases label <;> first | rfl | exact absurd h (by simp [FakeExecutor.Label.rule])

theorem Pm.Label.setsNumPuppets_of_rule {label : Pm.Label} (h : label.rule = true) :
    label.setsNumPuppets = false := by
  cases label <;> first | rfl | exact absurd h (by simp [Pm.Label.rule])

theorem Pm.numPuppets_step {s t : Pm} {label : Pm.Label} (h : s.step label = some t)
    (hnum : label.setsNumPuppets = false) : t.numPuppets = s.numPuppets := by
  cases Pm.fires_of_step h with
  | setNumPuppets => simp [Pm.Label.setsNumPuppets] at hnum
  | _ => rfl

def FakeExecutor.Label.endsCycle : FakeExecutor.Label → Bool
  | .endCycle _ => true
  | _ => false

theorem FakeExecutor.Label.endsCycle_of_rule {label : FakeExecutor.Label} (h : label.rule = true) :
    label.endsCycle = false := by
  cases label <;> first | rfl | exact absurd h (by simp [FakeExecutor.Label.rule])

theorem FakeExecutor.cycle_step {s t : FakeExecutor} {label : FakeExecutor.Label}
    (h : s.step label = some t) (hcycle : label.endsCycle = false) : t.cycle = s.cycle := by
  cases FakeExecutor.fires_of_step h with
  | endCycle => simp [FakeExecutor.Label.endsCycle] at hcycle
  | _ => rfl

structure Connectal where
  realTxnDriver : Fifo Transaction 1
  fakeTxnDriver : FakeTxnDriver
  txnDriverMux : TIndex
  pm : Pm
  -- of mkPuppetmaster, with whether step 3.a has fired in this cycle
  cycle : Timestamp
  admitted : Bool
  realExecutor : RealExecutor
  fakeExecutor : FakeExecutor
  executorMux : TIndex
  printed : List HwOutput

namespace Connectal

inductive Label
  | fetchConfig (cfg : TopConfig)
  | setConfig (cfg : TopConfig)
  | addTransaction (txn : Transaction)
  | triggerDriver
  | reportWorkDone (txnId : TransactionId)
  | transactionScheduled (txnId : TransactionId)
  | populate_txn (txn : Option Transaction)
  | transactions (txn : Submitted)
  | scheduled (msg : ScheduleMessage)
  | workDone (msg : WorkDoneMessage)
  | pm (label : Pm.Label)
  | executor (label : FakeExecutor.Label)
  | endCycle (grant : PuppetId → Bool)

-- The registers of the two multiplexers have no reset value.
def reset (isCompat : Bool) (main shadow : TxnFingerprint) (driver executor : TIndex) : Connectal where
  realTxnDriver := Fifo.empty
  fakeTxnDriver := FakeTxnDriver.reset
  txnDriverMux := driver
  pm := Pm.reset isCompat main shadow
  cycle := 0
  admitted := false
  realExecutor := ⟨Fifo.empty, Fifo.empty⟩
  fakeExecutor := FakeExecutor.reset
  executorMux := executor
  printed := []

def fetchConfig (c : Connectal) : TopConfig where
  useSimulatedTxnDriver := c.txnDriverMux = 1
  useSimulatedPuppets := c.executorMux = 1
  numPuppets := c.pm.numPuppets.setWidth 16
  puppetSimCycles := c.fakeExecutor.duration
  txnDriverWaitCycles := c.fakeTxnDriver.totalWaitTime

-- The condition of the dynamicAssert of setConfig.
def setConfigAssert (cfg : TopConfig) : Bool := cfg.numPuppets < BitVec.ofNat 16 MaxNumPuppets

def setConfig (c : Connectal) (cfg : TopConfig) : Connectal :=
  { c with
    txnDriverMux := if cfg.useSimulatedTxnDriver then 1 else 0
    executorMux := if cfg.useSimulatedPuppets then 1 else 0
    pm := { c.pm with numPuppets := cfg.numPuppets.setWidth 5 }
    fakeExecutor := { c.fakeExecutor with
      numPuppets := cfg.numPuppets.setWidth 5
      duration := cfg.puppetSimCycles }
    fakeTxnDriver := c.fakeTxnDriver.setDuration cfg.txnDriverWaitCycles }

def addTransaction (c : Connectal) (txn : Transaction) : Option Connectal :=
  if c.txnDriverMux = 0 then do
    let realTxnDriver ← c.realTxnDriver.enq txn
    some { c with realTxnDriver := realTxnDriver }
  else do
    let fakeTxnDriver ← c.fakeTxnDriver.fromHost_put txn
    some { c with fakeTxnDriver := fakeTxnDriver }

def reportWorkDone (c : Connectal) (txnId : TransactionId) : Option Connectal := do
  let doneFF ← c.realExecutor.doneFF.enq txnId
  some { c with realExecutor := { c.realExecutor with doneFF := doneFF } }

-- mkConnection(realExecutor.toHost, toPut(h2s.transactionScheduled))
def transactionScheduled (c : Connectal) : Option (TransactionId × Connectal) := do
  let (txnId, reqFF) ← c.realExecutor.reqFF.deq
  some (txnId, { c with realExecutor := { c.realExecutor with reqFF := reqFF } })

def populate_txn (c : Connectal) (txn : Option Transaction) : Option Connectal := do
  let fakeTxnDriver ← expect txn c.fakeTxnDriver.populate_txn
  some { c with
    fakeTxnDriver := fakeTxnDriver
    printed := c.printed ++ c.fakeTxnDriver.output txn }

-- The interfaces that the multiplexers select.

def transactions_get (c : Connectal) : Option (Transaction × Connectal) :=
  if c.txnDriverMux = 0 then do
    let (txn, realTxnDriver) ← c.realTxnDriver.deq
    some (txn, { c with realTxnDriver := realTxnDriver })
  else do
    let (txn, fakeTxnDriver) ← c.fakeTxnDriver.transactions_get
    some (txn, { c with fakeTxnDriver := fakeTxnDriver })

def request_put (c : Connectal) (msg : ScheduleMessage) : Option Connectal :=
  if c.executorMux = 0 then do
    let realExecutor ← c.realExecutor.request_put msg
    some { c with realExecutor := realExecutor }
  else do
    let fakeExecutor ← c.fakeExecutor.step (.request_put msg)
    some { c with fakeExecutor := fakeExecutor }

def response_get (c : Connectal) (msg : WorkDoneMessage) : Option Connectal :=
  if c.executorMux = 0 then do
    let realExecutor ← expect msg c.realExecutor.response_get
    some { c with realExecutor := realExecutor }
  else do
    let fakeExecutor ← c.fakeExecutor.step (.response_get msg)
    some { c with fakeExecutor := fakeExecutor }

-- mkConnection(txnDriverMux.txnDriver.transactions, pm.transactions)
def transactions (c : Connectal) (txn : Submitted) : Option Connectal := do
  let d ← expect txn.txn c.transactions_get
  let pm ← d.pm.step (.transactions_put txn)
  some { d with pm := pm }

-- mkConnection(pm.scheduled, executorMux.executor.request)
def scheduled (c : Connectal) (msg : ScheduleMessage) : Option Connectal := do
  let pm ← c.pm.step (.scheduled_get msg)
  request_put { c with pm := pm } msg

-- mkConnection(executorMux.executor.response, toPut(pm.workDone))
def workDone (c : Connectal) (msg : WorkDoneMessage) : Option Connectal := do
  let d ← c.response_get msg
  let pm ← d.pm.step (.workDone_put msg)
  some { d with pm := pm }

def pmRule (c : Connectal) (label : Pm.Label) : Option Connectal := do
  require (label.rule = true ∧ (label.admits = true → c.admitted = false))
  let pm ← c.pm.step label
  some { c with
    pm := pm
    admitted := c.admitted || label.admits
    printed := c.printed ++ c.pm.output c.cycle label }

def executorRule (c : Connectal) (label : FakeExecutor.Label) : Option Connectal := do
  require (label.rule = true)
  let fakeExecutor ← c.fakeExecutor.step label
  some { c with
    fakeExecutor := fakeExecutor
    printed := c.printed ++ c.fakeExecutor.output label }

-- Every module has its own cycle counter on the one clock.
def endCycle (c : Connectal) (grant : PuppetId → Bool) : Option Connectal := do
  let fakeExecutor ← c.fakeExecutor.step (.endCycle grant)
  some { c with
    fakeTxnDriver := c.fakeTxnDriver.tick
    cycle := c.cycle + 1
    admitted := false
    fakeExecutor := fakeExecutor }

def step (c : Connectal) : Label → Option Connectal
  | .fetchConfig cfg => expect cfg (some (c.fetchConfig, c))
  | .setConfig cfg => some (c.setConfig cfg)
  | .addTransaction txn => c.addTransaction txn
  | .triggerDriver => some { c with fakeTxnDriver := c.fakeTxnDriver.trigger }
  | .reportWorkDone txnId => c.reportWorkDone txnId
  | .transactionScheduled txnId => expect txnId c.transactionScheduled
  | .populate_txn txn => c.populate_txn txn
  | .transactions txn => c.transactions txn
  | .scheduled msg => c.scheduled msg
  | .workDone msg => c.workDone msg
  | .pm label => c.pmRule label
  | .executor label => c.executorRule label
  | .endCycle grant => c.endCycle grant

end Connectal

end Puppetmaster.Hardware
