import Puppetmaster.Hardware.Connectal

namespace Puppetmaster.Hardware

open Library Library.Transition

theorem FakeExecutor.duration_step {s t : FakeExecutor} {label : FakeExecutor.Label}
    (h : s.step label = some t) (hduration : ∀ n, label ≠ .setDuration n) : t.duration = s.duration := by
  cases fires_of_step h with
  | setDuration => exact absurd rfl (hduration _)
  | _ => rfl

theorem FakeTxnDriver.totalWaitTime_populate {s t : FakeTxnDriver} {txn : Option Transaction}
    (h : s.populate_txn = some (txn, t)) : t.totalWaitTime = s.totalWaitTime := by
  cases txn with
  | some txn =>
      obtain ⟨-, -, -, qt, qo, -, -, rfl⟩ := populate_some h
      rfl
  | none =>
      obtain ⟨-, -, rfl⟩ := populate_none h
      rfl

namespace Connectal

variable {c d : Connectal} {label : Label} {labels : List Label}

-- The step of the Puppetmaster module that is part of a step.
def Label.pmLabel : Label → Option Pm.Label
  | .setConfig cfg => some (.setNumPuppets (cfg.numPuppets.setWidth 5))
  | .transactions txn => some (.transactions_put txn)
  | .scheduled msg => some (.scheduled_get msg)
  | .workDone msg => some (.workDone_put msg)
  | .pm label => if label.rule = true then some label else none
  | _ => none

def Label.configures : Label → Bool
  | .setConfig _ => true
  | _ => false

-- What a step does to the Puppetmaster module, and that only setConfig changes what
-- fetchConfig answers.
structure Frame (c : Connectal) (label : Label) (d : Connectal) : Prop where
  pm_step : ∀ l, label.pmLabel = some l → c.pm.step l = some d.pm
  pm_eq : label.pmLabel = none → d.pm = c.pm
  fetchConfig_eq : label.configures = false → d.fetchConfig = c.fetchConfig

theorem fetchConfig_congr (hdriver : d.txnDriverMux = c.txnDriverMux) (hexecutor : d.executorMux = c.executorMux)
    (hnum : d.pm.numPuppets = c.pm.numPuppets) (hduration : d.fakeExecutor.duration = c.fakeExecutor.duration)
    (hwait : d.fakeTxnDriver.totalWaitTime = c.fakeTxnDriver.totalWaitTime) :
    d.fetchConfig = c.fetchConfig := by
  simp only [fetchConfig, hdriver, hexecutor, hnum, hduration, hwait]

-- What goes through the multiplexers.

theorem frame_transactions_get {txn : Transaction} (h : c.transactions_get = some (txn, d)) :
    d.pm = c.pm ∧ d.fetchConfig = c.fetchConfig := by
  unfold transactions_get at h
  split at h
  · obtain ⟨_, -, hd⟩ := Option.bind_eq_some_iff.mp h
    obtain ⟨-, rfl⟩ := Prod.mk.inj (Option.some.inj hd)
    exact ⟨rfl, rfl⟩
  · obtain ⟨⟨_, fakeTxnDriver⟩, hget, hd⟩ := Option.bind_eq_some_iff.mp h
    obtain ⟨-, rfl⟩ := Prod.mk.inj (Option.some.inj hd)
    obtain ⟨_, -, rfl⟩ := FakeTxnDriver.transactions_get_eq_some.mp hget
    exact ⟨rfl, rfl⟩

theorem frame_request_put {msg : ScheduleMessage} (h : c.request_put msg = some d) :
    d.pm = c.pm ∧ d.fetchConfig = c.fetchConfig := by
  unfold request_put at h
  split at h
  · obtain ⟨_, -, hd⟩ := Option.bind_eq_some_iff.mp h
    obtain rfl := Option.some.inj hd
    exact ⟨rfl, rfl⟩
  · obtain ⟨executor, hexec, hd⟩ := Option.bind_eq_some_iff.mp h
    obtain rfl := Option.some.inj hd
    exact ⟨rfl, fetchConfig_congr rfl rfl rfl (FakeExecutor.duration_step hexec nofun) rfl⟩

theorem frame_response_get {msg : WorkDoneMessage} (h : c.response_get msg = some d) :
    d.pm = c.pm ∧ d.fetchConfig = c.fetchConfig := by
  unfold response_get at h
  split at h
  · obtain ⟨_, -, hd⟩ := Option.bind_eq_some_iff.mp h
    obtain rfl := Option.some.inj hd
    exact ⟨rfl, rfl⟩
  · obtain ⟨executor, hexec, hd⟩ := Option.bind_eq_some_iff.mp h
    obtain rfl := Option.some.inj hd
    have hduration := FakeExecutor.duration_step hexec fun _ hlabel => by cases hlabel
    exact ⟨rfl, fetchConfig_congr rfl rfl rfl hduration rfl⟩

theorem fetchConfig_of_pm {pm : Pm} {l : Pm.Label} (hpm : c.pm.step l = some pm)
    (hnum : l.setsNumPuppets = false) : fetchConfig { c with pm := pm } = c.fetchConfig :=
  fetchConfig_congr rfl rfl (Pm.numPuppets_step hpm hnum) rfl rfl

theorem frame_of_step (hstep : c.step label = some d) : Frame c label d := by
  cases label with
  | fetchConfig cfg =>
      obtain ⟨-, rfl⟩ := Prod.mk.inj (Option.some.inj (expect_eq_some.mp hstep))
      exact ⟨nofun, fun _ => rfl, fun _ => rfl⟩
  | setConfig cfg =>
      obtain rfl := Option.some.inj hstep
      exact ⟨fun l hl => Option.some.inj hl ▸ rfl, nofun, nofun⟩
  | addTransaction txn =>
      rw [step, Connectal.addTransaction] at hstep
      split at hstep
      · obtain ⟨_, -, hd⟩ := Option.bind_eq_some_iff.mp hstep
        obtain rfl := Option.some.inj hd
        exact ⟨nofun, fun _ => rfl, fun _ => rfl⟩
      · obtain ⟨driver, hput, hd⟩ := Option.bind_eq_some_iff.mp hstep
        obtain rfl := Option.some.inj hd
        obtain ⟨_, -, rfl⟩ := FakeTxnDriver.fromHost_put_eq_some.mp hput
        exact ⟨nofun, fun _ => rfl, fun _ => rfl⟩
  | triggerDriver =>
      obtain rfl := Option.some.inj hstep
      exact ⟨nofun, fun _ => rfl, fun _ => rfl⟩
  | reportWorkDone txnId =>
      obtain ⟨_, -, hd⟩ := Option.bind_eq_some_iff.mp hstep
      obtain rfl := Option.some.inj hd
      exact ⟨nofun, fun _ => rfl, fun _ => rfl⟩
  | transactionScheduled txnId =>
      obtain ⟨_, -, hd⟩ := Option.bind_eq_some_iff.mp (expect_eq_some.mp hstep)
      obtain ⟨-, rfl⟩ := Prod.mk.inj (Option.some.inj hd)
      exact ⟨nofun, fun _ => rfl, fun _ => rfl⟩
  | populate_txn txn =>
      obtain ⟨driver, hdriver, hd⟩ := Option.bind_eq_some_iff.mp hstep
      obtain rfl := Option.some.inj hd
      have hwait := FakeTxnDriver.totalWaitTime_populate (expect_eq_some.mp hdriver)
      exact ⟨nofun, fun _ => rfl, fun _ => fetchConfig_congr rfl rfl rfl rfl hwait⟩
  | transactions txn =>
      obtain ⟨e, hget, hput⟩ := Option.bind_eq_some_iff.mp hstep
      obtain ⟨pm, hpm, hd⟩ := Option.bind_eq_some_iff.mp hput
      obtain rfl := Option.some.inj hd
      obtain ⟨hsame, hfetch⟩ := frame_transactions_get (expect_eq_some.mp hget)
      refine ⟨fun l hl => ?_, nofun, fun _ => (fetchConfig_of_pm hpm rfl).trans hfetch⟩
      exact Option.some.inj hl ▸ hsame ▸ hpm
  | scheduled msg =>
      obtain ⟨pm, hpm, hput⟩ := Option.bind_eq_some_iff.mp hstep
      obtain ⟨hsame, hfetch⟩ := frame_request_put hput
      refine ⟨fun l hl => ?_, nofun, fun _ => hfetch.trans (fetchConfig_of_pm hpm rfl)⟩
      rw [hsame]
      exact Option.some.inj hl ▸ hpm
  | workDone msg =>
      obtain ⟨e, hget, hput⟩ := Option.bind_eq_some_iff.mp hstep
      obtain ⟨pm, hpm, hd⟩ := Option.bind_eq_some_iff.mp hput
      obtain rfl := Option.some.inj hd
      obtain ⟨hsame, hfetch⟩ := frame_response_get hget
      refine ⟨fun l hl => ?_, nofun, fun _ => (fetchConfig_of_pm hpm rfl).trans hfetch⟩
      exact Option.some.inj hl ▸ hsame ▸ hpm
  | pm l =>
      simp only [step, pmRule, Option.bind_eq_bind, Option.bind_eq_some_iff, require_eq_some, exists_const,
        Option.some.injEq] at hstep
      obtain ⟨⟨hrule, -⟩, pm, hpm, rfl⟩ := hstep
      have hlabel : Label.pmLabel (.pm l) = some l := if_pos hrule
      refine ⟨fun l' hl => Option.some.inj (hlabel.symm.trans hl) ▸ hpm,
        fun hnone => (nomatch hlabel.symm.trans hnone), fun _ => ?_⟩
      exact fetchConfig_congr rfl rfl (Pm.numPuppets_step hpm (Pm.Label.setsNumPuppets_of_rule hrule)) rfl rfl
  | executor l =>
      simp only [step, executorRule, Option.bind_eq_bind, Option.bind_eq_some_iff, require_eq_some, exists_const,
        Option.some.injEq] at hstep
      obtain ⟨hrule, executor, hexec, rfl⟩ := hstep
      have hduration : executor.duration = c.fakeExecutor.duration := by
        refine FakeExecutor.duration_step hexec ?_
        rintro n rfl
        cases hrule
      exact ⟨nofun, fun _ => rfl, fun _ => fetchConfig_congr rfl rfl rfl hduration rfl⟩
  | endCycle grant =>
      obtain ⟨executor, hexec, hd⟩ := Option.bind_eq_some_iff.mp hstep
      obtain rfl := Option.some.inj hd
      have hduration := FakeExecutor.duration_step hexec nofun
      exact ⟨nofun, fun _ => rfl, fun _ => fetchConfig_congr rfl rfl rfl hduration rfl⟩

-- The Puppetmaster module takes the steps that are part of a run.
theorem pm_run (hrun : Run (Of step) c labels d) : Run (Of Pm.step) c.pm (trace Label.pmLabel labels) d.pm :=
  hrun.project Connectal.pm Label.pmLabel (fun _ _ _ h hnone => (frame_of_step h).pm_eq hnone)
    fun _ _ _ l h hl => (frame_of_step h).pm_step l hl

-- The configuration stands until the next one.
theorem fetchConfig_run (hrun : Run (Of step) c labels d) (hlabels : ∀ label ∈ labels, label.configures = false) :
    d.fetchConfig = c.fetchConfig := by
  induction hrun with
  | nil => rfl
  | snoc _ hlast ih =>
      have hearlier := ih fun label hlabel => hlabels label (List.mem_append_left _ hlabel)
      have hlabel := hlabels _ (List.mem_append_right _ List.mem_cons_self)
      exact ((frame_of_step hlast).fetchConfig_eq hlabel).trans hearlier

end Connectal

end Puppetmaster.Hardware
