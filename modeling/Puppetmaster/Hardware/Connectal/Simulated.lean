import Puppetmaster.Hardware.Connectal

namespace Puppetmaster.Hardware.Connectal

open Library Library.Transition Runner ClosedLoop

-- A configuration with the simulated driver and the simulated puppets.
def Simulates (n : PuppetCount) (cfg : TopConfig) : Prop :=
  cfg.useSimulatedTxnDriver = true ∧ cfg.useSimulatedPuppets = true ∧ cfg.numPuppets.setWidth 5 = n

instance (n : PuppetCount) (cfg : TopConfig) : Decidable (Simulates n cfg) :=
  inferInstanceAs (Decidable (_ ∧ _))

-- A later configuration may only change the durations.
def Label.keeps (n : PuppetCount) : Label → Prop
  | .setConfig cfg => Simulates n cfg
  | _ => True

instance (n : PuppetCount) (label : Label) : Decidable (label.keeps n) := by
  cases label <;> unfold Label.keeps <;> infer_instance

abbrev Keeping (n : PuppetCount) : Connectal → Label → Connectal → Prop :=
  Meeting step fun _ label => label.keeps n

def loop (c : Connectal) : ClosedLoop := ⟨c.pm, c.fakeExecutor⟩

structure Simulated (n : PuppetCount) (c : Connectal) : Prop where
  driverMux : c.txnDriverMux = 1
  executorMux : c.executorMux = 1
  numPuppets : c.pm.numPuppets = n
  matched : c.loop.Matched
  driverCycle : c.fakeTxnDriver.cycle = c.cycle
  executorCycle : c.fakeExecutor.cycle = c.cycle

-- What each step requires and does then.
inductive Moves (c : Connectal) : Label → Connectal → Prop
  | fetchConfig : Moves c (.fetchConfig c.fetchConfig) c
  | setConfig {cfg : TopConfig} : Moves c (.setConfig cfg) (c.setConfig cfg)
  | addTransaction {txn : Transaction} {qt : Fifo Transaction FakeTxnBRAMSize}
      (htxns : qt.items = c.fakeTxnDriver.txns.items ++ [txn]) :
      Moves c (.addTransaction txn) { c with fakeTxnDriver := { c.fakeTxnDriver with txns := qt } }
  | triggerDriver : Moves c .triggerDriver { c with fakeTxnDriver := c.fakeTxnDriver.trigger }
  | reportWorkDone {txnId : TransactionId} {real : RealExecutor} :
      Moves c (.reportWorkDone txnId) { c with realExecutor := real }
  | transactionScheduled {txnId : TransactionId} {real : RealExecutor} :
      Moves c (.transactionScheduled txnId) { c with realExecutor := real }
  | submitted {txn : Transaction} {qt : Fifo Transaction FakeTxnBRAMSize} {qo : Fifo Transaction 1}
      (hstarted : c.fakeTxnDriver.started = true) (hpopulated : c.fakeTxnDriver.populated = false)
      (hwait : c.fakeTxnDriver.totalWaitTime ≤ c.fakeTxnDriver.waitTimer)
      (htxns : c.fakeTxnDriver.txns.items = txn :: qt.items)
      (hout : qo.items = c.fakeTxnDriver.outFF.items ++ [txn]) :
      Moves c (.populate_txn (some txn)) { c with
        fakeTxnDriver := { c.fakeTxnDriver with
          populated := true
          txns := qt
          outCount := c.fakeTxnDriver.outCount + 1
          outFF := qo
          waitTimer := 0 }
        printed := c.printed ++ [.line ⟨c.fakeTxnDriver.cycle, txn.txnId, .submitted⟩] }
  | waits (hpopulated : c.fakeTxnDriver.populated = false)
      (hwait : c.fakeTxnDriver.waitTimer < c.fakeTxnDriver.totalWaitTime) :
      Moves c (.populate_txn none) { c with
        fakeTxnDriver := { c.fakeTxnDriver with
          populated := true
          waitTimer := c.fakeTxnDriver.waitTimer + 1 } }
  | transactions {txn : Submitted} {pm : Pm} {qo : Fifo Transaction 1}
      (hout : c.fakeTxnDriver.outFF.items = txn.txn :: qo.items)
      (hpm : c.pm.step (.transactions_put txn) = some pm) :
      Moves c (.transactions txn) { c with
        fakeTxnDriver := { c.fakeTxnDriver with outFF := qo }
        pm := pm }
  | scheduled {msg : ScheduleMessage} {pm : Pm} {executor : FakeExecutor}
      (hpm : c.pm.step (.scheduled_get msg) = some pm)
      (hexec : c.fakeExecutor.step (.request_put msg) = some executor) :
      Moves c (.scheduled msg) { c with pm := pm, fakeExecutor := executor }
  | workDone {msg : WorkDoneMessage} {pm : Pm} {executor : FakeExecutor}
      (hexec : c.fakeExecutor.step (.response_get msg) = some executor)
      (hpm : c.pm.step (.workDone_put msg) = some pm) :
      Moves c (.workDone msg) { c with pm := pm, fakeExecutor := executor }
  | pm {label : Pm.Label} {pm : Pm} (hrule : label.rule = true)
      (hadmitted : label.admits = true → c.admitted = false) (hpm : c.pm.step label = some pm) :
      Moves c (.pm label) { c with
        pm := pm
        admitted := c.admitted || label.admits
        printed := c.printed ++ c.pm.output c.cycle label }
  | executor {label : FakeExecutor.Label} {executor : FakeExecutor} (hrule : label.rule = true)
      (hexec : c.fakeExecutor.step label = some executor) :
      Moves c (.executor label) { c with
        fakeExecutor := executor
        printed := c.printed ++ c.fakeExecutor.output label }
  | endCycle {grant : PuppetId → Bool} {executor : FakeExecutor}
      (hexec : c.fakeExecutor.step (.endCycle grant) = some executor) :
      Moves c (.endCycle grant) { c with
        fakeTxnDriver := c.fakeTxnDriver.tick
        cycle := c.cycle + 1
        admitted := false
        fakeExecutor := executor }

variable {n : PuppetCount} {c d : Connectal} {label : Label}

theorem Simulated.moves_of_step (h : Simulated n c) (hstep : c.step label = some d) :
    Moves c label d := by
  have hdriver : ¬ c.txnDriverMux = 0 := by
    rw [h.driverMux]
    decide
  have hexecutor : ¬ c.executorMux = 0 := by
    rw [h.executorMux]
    decide
  cases label with
  | fetchConfig cfg =>
      simp only [step, expect_eq_some, Option.some.injEq, Prod.mk.injEq] at hstep
      obtain ⟨rfl, rfl⟩ := hstep
      exact .fetchConfig
  | setConfig cfg =>
      obtain rfl := Option.some.inj hstep
      exact .setConfig
  | addTransaction txn =>
      simp only [step, Connectal.addTransaction, if_neg hdriver, Option.bind_eq_bind,
        Option.bind_eq_some_iff, FakeTxnDriver.fromHost_put_eq_some, Option.some.injEq] at hstep
      obtain ⟨_, ⟨qt, htxns, rfl⟩, rfl⟩ := hstep
      exact .addTransaction htxns
  | triggerDriver =>
      obtain rfl := Option.some.inj hstep
      exact .triggerDriver
  | reportWorkDone txnId =>
      simp only [step, Connectal.reportWorkDone, Option.bind_eq_bind, Option.bind_eq_some_iff,
        Option.some.injEq] at hstep
      obtain ⟨_, -, rfl⟩ := hstep
      exact .reportWorkDone
  | transactionScheduled txnId =>
      simp only [step, expect_eq_some, Connectal.transactionScheduled, Option.bind_eq_bind,
        Option.bind_eq_some_iff, Option.some.injEq, Prod.mk.injEq] at hstep
      obtain ⟨_, -, -, rfl⟩ := hstep
      exact .transactionScheduled
  | populate_txn txn =>
      simp only [step, Connectal.populate_txn, Option.bind_eq_bind, Option.bind_eq_some_iff,
        expect_eq_some, Option.some.injEq] at hstep
      obtain ⟨driver, hdriver, rfl⟩ := hstep
      cases txn with
      | some txn =>
          obtain ⟨hstarted, hpopulated, hwait, qt, qo, htxns, hout, rfl⟩ :=
            FakeTxnDriver.populate_some hdriver
          exact .submitted hstarted hpopulated hwait htxns hout
      | none =>
          obtain ⟨hpopulated, hwait, rfl⟩ := FakeTxnDriver.populate_none hdriver
          simp only [FakeTxnDriver.output, Option.toList_none, List.map_nil, List.append_nil]
          exact .waits hpopulated hwait
  | transactions txn =>
      simp only [step, Connectal.transactions, Option.bind_eq_bind, Option.bind_eq_some_iff,
        expect_eq_some, Connectal.transactions_get, if_neg hdriver, Prod.exists,
        FakeTxnDriver.transactions_get_eq_some, Option.some.injEq, Prod.mk.injEq] at hstep
      obtain ⟨_, ⟨_, _, ⟨qo, hout, rfl⟩, rfl, rfl⟩, pm, hpm, rfl⟩ := hstep
      exact .transactions hout hpm
  | scheduled msg =>
      simp only [step, Connectal.scheduled, Connectal.request_put, Option.bind_eq_bind,
        Option.bind_eq_some_iff, if_neg hexecutor, Option.some.injEq] at hstep
      obtain ⟨pm, hpm, executor, hexec, rfl⟩ := hstep
      exact .scheduled hpm hexec
  | workDone msg =>
      simp only [step, Connectal.workDone, Connectal.response_get, Option.bind_eq_bind,
        Option.bind_eq_some_iff, if_neg hexecutor, Option.some.injEq] at hstep
      obtain ⟨_, ⟨executor, hexec, rfl⟩, pm, hpm, rfl⟩ := hstep
      exact .workDone hexec hpm
  | pm label =>
      simp only [step, Connectal.pmRule, Option.bind_eq_bind, Option.bind_eq_some_iff,
        require_eq_some, exists_const, Option.some.injEq] at hstep
      obtain ⟨⟨hrule, hadmitted⟩, pm, hpm, rfl⟩ := hstep
      exact .pm hrule hadmitted hpm
  | executor label =>
      simp only [step, Connectal.executorRule, Option.bind_eq_bind, Option.bind_eq_some_iff,
        require_eq_some, exists_const, Option.some.injEq] at hstep
      obtain ⟨hrule, executor, hexec, rfl⟩ := hstep
      exact .executor hrule hexec
  | endCycle grant =>
      simp only [step, Connectal.endCycle, Option.bind_eq_bind, Option.bind_eq_some_iff,
        Option.some.injEq] at hstep
      obtain ⟨executor, hexec, rfl⟩ := hstep
      exact .endCycle hexec

theorem Simulated.of_loop (h : Simulated n c) (hdriver : d.txnDriverMux = c.txnDriverMux)
    (hexecutor : d.executorMux = c.executorMux) (hnum : d.pm.numPuppets = c.pm.numPuppets)
    (hmatched : d.loop.Matched) (hdriverCycle : d.fakeTxnDriver.cycle = d.cycle)
    (hexecutorCycle : d.fakeExecutor.cycle = d.cycle) : Simulated n d where
  driverMux := hdriver.trans h.driverMux
  executorMux := hexecutor.trans h.executorMux
  numPuppets := hnum.trans h.numPuppets
  matched := hmatched
  driverCycle := hdriverCycle
  executorCycle := hexecutorCycle

theorem Simulated.setConfig (h : Simulated n c) {cfg : TopConfig} (hcfg : Simulates n cfg) :
    Simulated n (c.setConfig cfg) := by
  obtain ⟨hdriver, hpuppets, hnum⟩ := hcfg
  have hpm : { c.pm with numPuppets := cfg.numPuppets.setWidth 5 } = c.pm := by
    rw [hnum, ← h.numPuppets]
  have hexecutor : { c.fakeExecutor with
      numPuppets := cfg.numPuppets.setWidth 5
      duration := cfg.puppetSimCycles } = { c.fakeExecutor with duration := cfg.puppetSimCycles } := by
    rw [hnum, ← h.numPuppets, show c.pm.numPuppets = c.fakeExecutor.numPuppets from h.matched.numPuppets]
  have hmatched : Matched ⟨c.pm, { c.fakeExecutor with duration := cfg.puppetSimCycles }⟩ :=
    h.matched.step_executor (l := .setDuration cfg.puppetSimCycles) rfl rfl
  refine ⟨if_pos hdriver, if_pos hpuppets, hnum, ?_, h.driverCycle, h.executorCycle⟩
  rw [loop, Connectal.setConfig, hpm, hexecutor]
  exact hmatched

theorem Simulated.step (h : Simulated n c) (hkeeps : label.keeps n) (hstep : c.step label = some d) :
    Simulated n d := by
  cases h.moves_of_step hstep with
  | fetchConfig => exact h
  | setConfig => exact h.setConfig hkeeps
  | addTransaction | triggerDriver | reportWorkDone | transactionScheduled | submitted | waits =>
      exact h.of_loop rfl rfl rfl h.matched h.driverCycle h.executorCycle
  | transactions hout hpm =>
      have hnum := Pm.numPuppets_step hpm rfl
      exact h.of_loop rfl rfl hnum (h.matched.step_pm rfl hpm) h.driverCycle h.executorCycle
  | scheduled hpm hexec =>
      have hnum := Pm.numPuppets_step hpm rfl
      have hcycle := FakeExecutor.cycle_step hexec rfl
      exact h.of_loop rfl rfl hnum (h.matched.step_scheduled hpm hexec) h.driverCycle
        (hcycle.trans h.executorCycle)
  | workDone hexec hpm =>
      have hnum := Pm.numPuppets_step hpm rfl
      have hcycle := FakeExecutor.cycle_step hexec rfl
      exact h.of_loop rfl rfl hnum (h.matched.step_workDone hexec hpm) h.driverCycle
        (hcycle.trans h.executorCycle)
  | pm hrule hadmitted hpm =>
      have hfree := Pm.Label.connected_of_rule hrule
      have hnum := Pm.numPuppets_step hpm (Pm.Label.setsNumPuppets_of_rule hrule)
      exact h.of_loop rfl rfl hnum (h.matched.step_pm hfree hpm) h.driverCycle h.executorCycle
  | executor hrule hexec =>
      have hfree := FakeExecutor.Label.connected_of_rule hrule
      have hcycle := FakeExecutor.cycle_step hexec (FakeExecutor.Label.endsCycle_of_rule hrule)
      exact h.of_loop rfl rfl rfl (h.matched.step_executor hfree hexec) h.driverCycle
        (hcycle.trans h.executorCycle)
  | @endCycle grant executor hexec =>
      have hcycle : executor.cycle = c.fakeExecutor.cycle + 1 := by
        cases FakeExecutor.fires_of_step hexec
        rfl
      refine h.of_loop rfl rfl rfl (h.matched.step_executor rfl hexec) ?_ ?_
      · exact congrArg (· + 1) h.driverCycle
      · exact hcycle.trans (congrArg (· + 1) h.executorCycle)

-- After reset and the first configuration.
def configured (isCompat : Bool) (main shadow : TxnFingerprint) (driver executor : TIndex) (cfg : TopConfig) :
    Connectal := (reset isCompat main shadow driver executor).setConfig cfg

theorem Simulated.configured (isCompat : Bool) (main shadow : TxnFingerprint) (driver executor : TIndex)
    {cfg : TopConfig} (hcfg : Simulates n cfg) :
    Simulated n (configured isCompat main shadow driver executor cfg) := by
  obtain ⟨hdriver, hpuppets, hnum⟩ := hcfg
  refine ⟨if_pos hdriver, if_pos hpuppets, hnum, ?_, rfl, rfl⟩
  exact (Matched.reset isCompat main shadow (cfg.numPuppets.setWidth 5)).step_executor
    (l := .setDuration cfg.puppetSimCycles) rfl rfl

end Puppetmaster.Hardware.Connectal
