import Puppetmaster.Hardware.Connectal.Admissions

namespace Puppetmaster.Hardware.Connectal

open Library Library.Transition Runner

-- The calls of the host.
def Label.request : Label → Option Label
  | .fetchConfig cfg => some (.fetchConfig cfg)
  | .setConfig cfg => some (.setConfig cfg)
  | .addTransaction txn => some (.addTransaction txn)
  | .triggerDriver => some .triggerDriver
  | .reportWorkDone txnId => some (.reportWorkDone txnId)
  | _ => none

theorem Label.eq_of_request {label request : Label} (h : label.request = some request) :
    request = label := by
  cases label <;> first | exact (Option.some.inj h).symm | cases h

theorem Label.put_eq (label : Label) : label.put = label.request.bind Label.put := by
  cases label <;> rfl

theorem Label.added_eq (label : Label) : label.added = label.put.map Transaction.txnId := by
  cases label <;> rfl

-- The state with the simulated driver and the simulated puppets selected.
def selectFake (c : Connectal) : Connectal := { c with txnDriverMux := 1, executorMux := 1 }

variable {n : PuppetCount} {c d : Connectal} {label : Label} {labels : List Label}

theorem selectFake_eq_self (hdriver : c.txnDriverMux = 1) (hexecutor : c.executorMux = 1) :
    c.selectFake = c := by
  cases c
  cases hdriver
  cases hexecutor
  rfl

-- The steps that go through a multiplexer or show which input it selects.
def Label.selects : Label → Bool
  | .fetchConfig _ | .setConfig _ | .addTransaction _ | .transactions _ | .scheduled _ | .workDone _ => true
  | _ => false

theorem step_selectFake (hlabel : label.selects = false) (hstep : c.step label = some d) :
    c.selectFake.step label = some d.selectFake := by
  cases label with
  | fetchConfig | setConfig | addTransaction | transactions | scheduled | workDone => cases hlabel
  | triggerDriver =>
      obtain rfl := Option.some.inj hstep
      rfl
  | reportWorkDone txnId =>
      simp only [step, reportWorkDone, Option.bind_eq_bind, Option.bind_eq_some_iff] at hstep ⊢
      obtain ⟨q, hq, hd⟩ := hstep
      obtain rfl := Option.some.inj hd
      exact ⟨q, hq, rfl⟩
  | transactionScheduled txnId =>
      simp only [step, expect_eq_some, transactionScheduled, Option.bind_eq_bind, Option.bind_eq_some_iff,
        Option.some.injEq, Prod.mk.injEq] at hstep ⊢
      obtain ⟨q, hq, hid, rfl⟩ := hstep
      exact ⟨q, hq, hid, rfl⟩
  | populate_txn txn =>
      simp only [step, populate_txn, Option.bind_eq_bind, Option.bind_eq_some_iff, Option.some.injEq] at hstep ⊢
      obtain ⟨q, hq, rfl⟩ := hstep
      exact ⟨q, hq, rfl⟩
  | pm l =>
      simp only [step, pmRule, Option.bind_eq_bind, Option.bind_eq_some_iff, Option.some.injEq] at hstep ⊢
      obtain ⟨u, hrule, q, hq, rfl⟩ := hstep
      exact ⟨u, hrule, q, hq, rfl⟩
  | executor l =>
      simp only [step, executorRule, Option.bind_eq_bind, Option.bind_eq_some_iff, Option.some.injEq] at hstep ⊢
      obtain ⟨u, hrule, q, hq, rfl⟩ := hstep
      exact ⟨u, hrule, q, hq, rfl⟩
  | endCycle grant =>
      simp only [step, endCycle, Option.bind_eq_bind, Option.bind_eq_some_iff, Option.some.injEq] at hstep ⊢
      obtain ⟨q, hq, rfl⟩ := hstep
      exact ⟨q, hq, rfl⟩

end Puppetmaster.Hardware.Connectal
