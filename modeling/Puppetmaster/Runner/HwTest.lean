import Puppetmaster.Hardware.Connectal.Requests
import Puppetmaster.Runner.Workload
import Puppetmaster.Wrapper.Pmhw

namespace Puppetmaster.Runner

open Library Library.Transition Wrapper Hardware Hardware.Connectal

-- main of hw_test.c: the calls that come out of it when the hardware answers fetchConfig so.
def hw_test (wl : Workload) (sim_cycles txn_cycles : BitVec 32) (answer : TopConfig) :
    Except Abort (List Connectal.Label) := do
  let _ ← orFatal "Assertion failed" (require (wl.num_txns < 4096))
  let (init, s) := Pmhw.pmhw_init 8
  let cfg := { Pmhw.pmhw_get_config answer with
    sim_cycles := sim_cycles
    driver_wait_cycles := txn_cycles }
  let inserts ← (List.ofFn wl.txns).mapM s.pmhw_schedule
  let trigger ← s.pmhw_trigger_input_driver
  return [init, .fetchConfig answer, s.pmhw_set_config cfg] ++ inserts ++ [trigger]

def initConfig : TopConfig := ⟨true, true, 8, 0, 0⟩

-- The calls of a program that asks for as many transactions as there is room for, each of them
-- with as many objects as a call can carry.
structure Asks (wl : Workload) (sim_cycles txn_cycles : BitVec 32) (answer : TopConfig)
    (requests : List Connectal.Label) : Prop where
  num_txns_lt : wl.num_txns < 4096
  objs_le : ∀ i, (wl.txns i).num_reads ≤ 8 ∧ (wl.txns i).num_writes ≤ 8
  requests_eq : requests = [.setConfig initConfig, .fetchConfig answer,
    .setConfig ⟨answer.useSimulatedTxnDriver, answer.useSimulatedPuppets, 8, sim_cycles.signExtend 64,
      txn_cycles.signExtend 64⟩] ++
    (List.ofFn wl.txns).map (fun txn => .addTransaction (addTransaction txn)) ++ [.triggerDriver]

theorem hw_test_eq_ok {wl : Workload} {sim_cycles txn_cycles : BitVec 32} {answer : TopConfig}
    {requests : List Connectal.Label} (h : hw_test wl sim_cycles txn_cycles answer = .ok requests) :
    Asks wl sim_cycles txn_cycles answer requests := by
  simp only [hw_test, bind_eq_ok, orFatal_eq_ok, require_eq_some] at h
  obtain ⟨-, hlt, inserts, hinserts, trigger, htrigger, hrequests⟩ := h
  obtain ⟨hobjs, rfl⟩ := (mapM_eq_ok (Pmhw.pmhw_schedule_eq_ok rfl)).mp hinserts
  obtain rfl := Except.ok.inj htrigger
  exact ⟨hlt, fun i => hobjs _ (List.mem_ofFn.mpr ⟨i, rfl⟩), (Except.ok.inj hrequests).symm⟩

theorem simulates_initConfig : Simulates 8 initConfig := by decide

section

variable {wl : Workload} {sim_cycles txn_cycles : BitVec 32} {answer : TopConfig}
  {requests labels : List Connectal.Label} {label : Connectal.Label} {c d : Connectal}

theorem Asks.first (h : Asks wl sim_cycles txn_cycles answer requests) (hfirst : [label] <+: requests) :
    label = .setConfig initConfig := by
  rw [h.requests_eq] at hfirst
  exact (List.cons_prefix_cons.mp hfirst).1

theorem Asks.keeps_of_mem (h : Asks wl sim_cycles txn_cycles answer requests) (hmem : label ∈ requests)
    (hanswer : answer.useSimulatedTxnDriver = true ∧ answer.useSimulatedPuppets = true) :
    label.keeps 8 := by
  cases label with
  | setConfig cfg =>
      simp only [h.requests_eq, List.mem_append, List.mem_cons, List.mem_map, List.not_mem_nil, or_false,
        reduceCtorEq, and_false, exists_false, false_or, Connectal.Label.setConfig.injEq] at hmem
      rcases hmem with rfl | rfl
      · exact simulates_initConfig
      · exact ⟨hanswer.1, hanswer.2, rfl⟩
  | _ => exact trivial

-- The second configuration is sent when the first one has been read back.
theorem Asks.keeps (h : Asks wl sim_cycles txn_cycles answer requests) {asked : List Connectal.Label}
    (hrequests : asked ++ [label] <+: requests)
    (hanswered : .fetchConfig answer ∈ asked →
      answer.useSimulatedTxnDriver = true ∧ answer.useSimulatedPuppets = true) : label.keeps 8 := by
  have hmem : label ∈ requests := hrequests.subset (List.mem_append_right _ List.mem_cons_self)
  rcases asked with _ | ⟨first, _ | ⟨second, rest⟩⟩
  · obtain rfl := h.first hrequests
    exact simulates_initConfig
  · rw [h.requests_eq] at hrequests
    obtain rfl := (List.cons_prefix_cons.mp (List.cons_prefix_cons.mp hrequests).2).1
    exact trivial
  · rw [h.requests_eq] at hrequests
    obtain rfl := (List.cons_prefix_cons.mp (List.cons_prefix_cons.mp hrequests).2).1
    exact h.keeps_of_mem hmem (hanswered (List.mem_cons_of_mem _ List.mem_cons_self))

-- What the calls have made of the multiplexers and of the parts that are not simulated.
structure Steered (labels : List Connectal.Label) (c : Connectal) : Prop where
  selected : trace Label.request labels ≠ [] → c.txnDriverMux = 1 ∧ c.executorMux = 1
  realTxnDriver : c.realTxnDriver = Fifo.empty
  realExecutor : c.realExecutor = ⟨Fifo.empty, Fifo.empty⟩
  answered : ∀ cfg, .fetchConfig cfg ∈ trace Label.request labels →
    cfg.useSimulatedTxnDriver = true ∧ cfg.useSimulatedPuppets = true

theorem Steered.simulated (h : Steered labels c) (hsim : Simulated 8 c.selectFake)
    (hasked : trace Label.request labels ≠ []) : c.selectFake = c ∧ Simulated 8 c := by
  obtain ⟨hdriver, hexecutor⟩ := h.selected hasked
  have heq := selectFake_eq_self hdriver hexecutor
  exact ⟨heq, heq ▸ hsim⟩

-- Before the first call nothing goes through the multiplexers.
theorem Steered.selects_eq_false (h : Steered labels c) (hidle : OnCourse [] c.selectFake)
    (hrequest : label.request = none) (hstep : c.step label = some d) : label.selects = false := by
  have hnone : ∀ stop, c.selectFake.ids stop = [] := fun stop =>
    List.eq_nil_iff_forall_not_mem.mpr fun id hid => List.not_mem_nil (hidle.mem_all hid)
  cases label with
  | transactions txn =>
      simp only [step, Connectal.transactions, Option.bind_eq_bind, Option.bind_eq_some_iff,
        expect_eq_some, transactions_get] at hstep
      obtain ⟨e, hget, -⟩ := hstep
      split at hget
      · rw [h.realTxnDriver] at hget
        cases hget
      · simp only [Option.bind_eq_some_iff, Prod.exists, FakeTxnDriver.transactions_get_eq_some] at hget
        obtain ⟨txn', _, ⟨q, hout, -⟩, -⟩ := hget
        have hsubmitted := hnone .submitted
        rw [ids, selectFake, hout] at hsubmitted
        simp at hsubmitted
  | scheduled msg =>
      simp only [step, Connectal.scheduled, Option.bind_eq_bind, Option.bind_eq_some_iff] at hstep
      obtain ⟨pm, hpm, -⟩ := hstep
      cases Pm.fires_of_step hpm with
      | scheduled_get hsched =>
          have hscheduled := (List.append_eq_nil_iff.mp (hnone (.scheduled msg.puppetId))).2
          rw [scheduledFor_append, List.append_eq_nil_iff, selectFake, hsched, scheduledFor_cons_self] at hscheduled
          cases hscheduled.2
  | workDone msg =>
      simp only [step, Connectal.workDone, Option.bind_eq_bind, Option.bind_eq_some_iff, response_get] at hstep
      obtain ⟨e, hget, -⟩ := hstep
      split at hget
      · simp only [Option.bind_eq_some_iff, expect_eq_some, RealExecutor.response_get, h.realExecutor] at hget
        obtain ⟨real, hanswer, -⟩ := hget
        exact absurd hanswer (by simp [Fifo.deq, Fifo.empty])
      · obtain ⟨executor, hexec, -⟩ := Option.bind_eq_some_iff.mp hget
        cases FakeExecutor.fires_of_step hexec with
        | response_get hdone =>
            have hreported := hnone (.done msg.puppetId)
            rw [ids, selectFake, doneFor_append, List.append_eq_nil_iff, hdone, doneFor_cons_self] at hreported
            cases hreported.2
  | fetchConfig | setConfig | addTransaction => cases hrequest
  | _ => rfl

theorem real_unused {n : PuppetCount} (h : Simulated n c) (hstep : c.step label = some d)
    (hreal : c.realExecutor = ⟨Fifo.empty, Fifo.empty⟩) (hlabel : ∀ txnId, label ≠ .reportWorkDone txnId) :
    d.realTxnDriver = c.realTxnDriver ∧ d.realExecutor = c.realExecutor := by
  cases label with
  | reportWorkDone txnId => exact absurd rfl (hlabel txnId)
  | transactionScheduled txnId =>
      simp only [step, expect_eq_some, transactionScheduled, Option.bind_eq_bind, Option.bind_eq_some_iff,
        hreal] at hstep
      obtain ⟨x, hdeq, -⟩ := hstep
      cases hdeq
  | _ => cases h.moves_of_step hstep <;> exact ⟨rfl, rfl⟩

theorem keeps_of_request {n : PuppetCount} (h : label.request = none) : label.keeps n := by
  cases label <;> trivial

theorem Steered.step (h : Steered labels c) (hasks : Asks wl sim_cycles txn_cycles answer requests)
    (hsim : Simulated 8 c.selectFake)
    (hidle : trace Label.request labels = [] → OnCourse [] c.selectFake)
    (hrequests : trace Label.request (labels ++ [label]) <+: requests) (hstep : c.step label = some d) :
    (c.selectFake.step label = some d.selectFake ∧ label.keeps 8) ∧ Steered (labels ++ [label]) d := by
  have hmem : ∀ request, label.request = some request → request ∈ requests := fun request hrequest =>
    hrequests.subset (by rw [trace_snoc_some _ _ hrequest]; exact List.mem_append_right _ List.mem_cons_self)
  have hunreported : ∀ txnId, label ≠ .reportWorkDone txnId := by
    rintro txnId rfl
    have hreport := hmem _ rfl
    simp [hasks.requests_eq] at hreport
  have hreal : (c.selectFake.step label = some d.selectFake) →
      d.realTxnDriver = Fifo.empty ∧ d.realExecutor = ⟨Fifo.empty, Fifo.empty⟩ := by
    intro hstep'
    obtain ⟨hdriver, hexecutor⟩ := real_unused hsim hstep' h.realExecutor hunreported
    exact ⟨hdriver.trans h.realTxnDriver, hexecutor.trans h.realExecutor⟩
  by_cases hasked : trace Label.request labels = []
  · cases hrequest : label.request with
    | none =>
        have hstep' := step_selectFake (h.selects_eq_false (hidle hasked) hrequest hstep) hstep
        have hsame := trace_snoc_none Label.request labels hrequest
        refine ⟨⟨hstep', keeps_of_request hrequest⟩, fun hne => absurd (hsame.trans hasked) hne, (hreal hstep').1,
          (hreal hstep').2, fun cfg hcfg => ?_⟩
        rw [hsame, hasked] at hcfg
        exact absurd hcfg List.not_mem_nil
    | some request =>
        rw [trace_snoc_some _ _ hrequest, hasked, List.nil_append] at hrequests
        obtain rfl := hasks.first hrequests
        obtain rfl := Label.eq_of_request hrequest
        obtain rfl := Option.some.inj hstep
        refine ⟨⟨rfl, simulates_initConfig⟩, fun _ => ⟨rfl, rfl⟩, h.realTxnDriver, h.realExecutor,
          fun cfg hcfg => ?_⟩
        rw [trace_snoc_some _ _ hrequest, hasked] at hcfg
        simp at hcfg
  · obtain ⟨heq, hsim'⟩ := h.simulated hsim hasked
    have hkeeps : label.keeps 8 := by
      cases hrequest : label.request with
      | none => exact keeps_of_request hrequest
      | some request =>
          rw [trace_snoc_some _ _ hrequest] at hrequests
          exact Label.eq_of_request hrequest ▸ hasks.keeps hrequests (h.answered answer)
    have hnext := hsim'.step hkeeps hstep
    have hstep' : c.selectFake.step label = some d.selectFake := by
      rw [heq, selectFake_eq_self hnext.driverMux hnext.executorMux]
      exact hstep
    refine ⟨⟨hstep', hkeeps⟩, fun _ => ⟨hnext.driverMux, hnext.executorMux⟩, (hreal hstep').1,
      (hreal hstep').2, fun cfg hcfg => ?_⟩
    rw [trace_snoc, List.mem_append] at hcfg
    rcases hcfg with hcfg | hcfg
    · exact h.answered cfg hcfg
    · obtain rfl := Label.eq_of_request (Option.mem_toList.mp hcfg)
      cases hsim'.moves_of_step hstep with
      | fetchConfig => simp [fetchConfig, hsim'.driverMux, hsim'.executorMux]

theorem put_requests (labels : List Connectal.Label) :
    trace Label.put labels = trace Label.put (trace Label.request labels) := by
  rw [trace_trace]
  exact congrArg (trace · labels) (funext Label.put_eq)

theorem added_put (labels : List Connectal.Label) :
    trace Label.added labels = (trace Label.put labels).map Transaction.txnId := by
  rw [trace, trace, List.map_filterMap]
  exact congrArg (List.filterMap · labels) (funext Label.added_eq)

section

variable {isCompat : Bool} {main shadow : TxnFingerprint} {driver executor : TIndex}

-- A run with the program is one of the configured hardware; only the multiplexers may differ
-- before the first call.
theorem Steered.run (hasks : Asks wl sim_cycles txn_cycles answer requests)
    (hrun : Run (Meeting Connectal.step fun c label => label.covered c)
      (Connectal.reset isCompat main shadow driver executor) labels c)
    (hrequests : trace Label.request labels <+: requests) :
    Run (Covering 8) (Connectal.configured isCompat main shadow driver executor initConfig) labels
      c.selectFake ∧ Steered labels c := by
  have hall := hrun.history (fun labels c => trace Label.request labels <+: requests →
    Run (Covering 8) (Connectal.configured isCompat main shadow driver executor initConfig) labels
      c.selectFake ∧ Steered labels c) (fun _ => ⟨.nil, fun hne => absurd rfl hne, rfl, rfl, nofun⟩)
    fun labels c label d h hstep hrequests => ?_
  · exact hall hrequests
  · have hearlier : trace Label.request labels <+: requests :=
      ((List.prefix_append labels [label]).filterMap _).trans hrequests
    obtain ⟨hrun, hsteered⟩ := h hearlier
    have hkeeps := hrun.mono fun _ _ _ h => (⟨h.1, h.2.1⟩ : Meeting Connectal.step (fun _ label => label.keeps 8) _ _ _)
    have hidle : trace Label.request labels = [] → OnCourse [] c.selectFake := by
      intro hnone
      have hadded : trace Label.added labels = [] := by
        rw [added_put, put_requests, hnone]
        rfl
      have hcourse := OnCourse.run simulates_initConfig hkeeps (hadded ▸ List.nodup_nil)
      rwa [hadded] at hcourse
    obtain ⟨⟨hstep', hkeep⟩, hnext⟩ := hsteered.step hasks (Simulated.run simulates_initConfig hkeeps) hidle
      hrequests hstep.1
    have hcovered : label.covered c.selectFake := by
      cases label <;> exact hstep.2
    exact ⟨.snoc hrun ⟨hstep', hkeep, hcovered⟩, hnext⟩

end

end

end Puppetmaster.Runner
