import Puppetmaster.Hardware.Conflict
import Puppetmaster.Hardware.Connectal.Frame
import Puppetmaster.Runner.Stdlib

namespace Puppetmaster.Wrapper

open Library Library.Transition Hardware Runner

-- pm_config_t of pmhw.h
structure PmConfig where
  sim_driver : Bool
  sim_puppets : Bool
  sim_cycles : BitVec 32
  driver_wait_cycles : BitVec 32
deriving DecidableEq

-- pmhw_singleton_t of pmhw.cpp; what the two proxies do is the calls that come out.
structure Pmhw where
  initialized : Bool
  numPuppets : BitVec 32

namespace Pmhw

-- systemReset, which is called first, has no effect.
def pmhw_init (num_puppets : BitVec 32) : Connectal.Label × Pmhw :=
  (.setConfig {
    useSimulatedTxnDriver := true
    useSimulatedPuppets := true
    numPuppets := num_puppets.setWidth 16
    puppetSimCycles := 0
    txnDriverWaitCycles := 0 },
  { initialized := true, numPuppets := num_puppets })

def pmhw_set_config (s : Pmhw) (cfg : PmConfig) : Connectal.Label :=
  .setConfig {
    useSimulatedTxnDriver := cfg.sim_driver
    useSimulatedPuppets := cfg.sim_puppets
    numPuppets := s.numPuppets.setWidth 16
    puppetSimCycles := cfg.sim_cycles.signExtend 64
    txnDriverWaitCycles := cfg.driver_wait_cycles.signExtend 64 }

-- What pmhw_get_config makes of the message that answers fetchConfig.
def pmhw_get_config (cfg : TopConfig) : PmConfig where
  sim_driver := cfg.useSimulatedTxnDriver
  sim_puppets := cfg.useSimulatedPuppets
  sim_cycles := cfg.puppetSimCycles.setWidth 32
  driver_wait_cycles := cfg.txnDriverWaitCycles.setWidth 32

def pmhw_schedule (s : Pmhw) (txn : Txn) : Except Abort Connectal.Label := do
  let _ ← orFatal "Assertion failed" (require (s.initialized = true))
  let txn ← orFatal "Assertion failed" (Hardware.pmhw_schedule txn)
  return .addTransaction txn

def pmhw_trigger_input_driver (s : Pmhw) : Except Abort Connectal.Label := do
  let _ ← orFatal "Assertion failed" (require (s.initialized = true))
  return .triggerDriver

theorem pmhw_schedule_eq_ok {s : Pmhw} (hinit : s.initialized = true) (txn : Txn) (label : Connectal.Label) :
    s.pmhw_schedule txn = .ok label ↔
      (txn.num_reads ≤ 8 ∧ txn.num_writes ≤ 8) ∧ .addTransaction (addTransaction txn) = label := by
  simp only [pmhw_schedule, bind_eq_ok, orFatal_eq_ok, require_eq_some, hinit, pmhw_schedule_eq_some,
    true_and, exists_const]
  constructor
  · rintro ⟨sent, ⟨hobjs, rfl⟩, hlabel⟩
    exact ⟨hobjs, Except.ok.inj hlabel⟩
  · rintro ⟨hobjs, rfl⟩
    exact ⟨_, ⟨hobjs, rfl⟩, rfl⟩

theorem setWidth_numPuppets_iff (numPuppets : BitVec 16) :
    (numPuppets.setWidth 5).setWidth 16 = numPuppets ↔ numPuppets < 32 := by
  have hwidth : ((numPuppets.setWidth 5).setWidth 16).toNat = numPuppets.toNat % 32 := by
    rw [BitVec.toNat_setWidth, BitVec.toNat_setWidth]
    omega
  rw [← BitVec.toNat_inj, hwidth, BitVec.lt_def]
  show numPuppets.toNat % 32 = numPuppets.toNat ↔ numPuppets.toNat < 32
  omega

theorem setWidth_signExtend (cycles : BitVec 32) : (cycles.signExtend 64).setWidth 32 = cycles := by
  refine BitVec.eq_of_getLsbD_eq fun i hi => ?_
  have hlt : i < 64 := by omega
  simp only [BitVec.getLsbD_setWidth, BitVec.getLsbD_signExtend, hi, hlt, decide_true, Bool.true_and, if_pos]

-- What has been set is what is got, whatever host and hardware do in between. The registers of
-- numPuppets have room for more than setConfig asserts.
theorem config_round_trip (s : Pmhw) (cfg : PmConfig) {answer : TopConfig} {labels : List Connectal.Label}
    {c d e f : Connectal} (hset : c.step (s.pmhw_set_config cfg) = some d)
    (hrun : Run (Of Connectal.step) d labels e) (hlabels : ∀ label ∈ labels, label.configures = false)
    (hget : e.step (.fetchConfig answer) = some f) :
    pmhw_get_config answer = cfg ∧
      (answer.numPuppets = s.numPuppets.setWidth 16 ↔ s.numPuppets.setWidth 16 < 32) ∧
      ∀ sent, s.pmhw_set_config cfg = .setConfig sent → Connectal.setConfigAssert sent = true →
        answer.numPuppets = sent.numPuppets := by
  obtain rfl := Option.some.inj hset
  obtain ⟨hanswer, -⟩ := Prod.mk.inj (Option.some.inj (expect_eq_some.mp hget))
  rw [Connectal.fetchConfig_run hrun hlabels] at hanswer
  subst hanswer
  refine ⟨?_, setWidth_numPuppets_iff _, fun sent hsent hassert => ?_⟩
  · obtain ⟨sim_driver, sim_puppets, sim_cycles, driver_wait_cycles⟩ := cfg
    simp only [pmhw_get_config, Connectal.fetchConfig, Connectal.setConfig, FakeTxnDriver.setDuration,
      setWidth_signExtend]
    cases sim_driver <;> cases sim_puppets <;> rfl
  · obtain rfl := Connectal.Label.setConfig.inj hsent
    have hlt : s.numPuppets.setWidth 16 < BitVec.ofNat 16 MaxNumPuppets := of_decide_eq_true hassert
    exact (setWidth_numPuppets_iff _).mpr (BitVec.lt_trans hlt (by decide : (16 : BitVec 16) < 32))

-- A negative number of cycles comes back.

def negativeWait : PmConfig := ⟨true, false, 100, -1⟩

def resetState : Connectal :=
  Connectal.reset false (hashTxn (addTransaction writesObjectZero)) (hashTxn (addTransaction writesObjectZero)) 0 0

theorem config_round_trip_negativeWait : pmhw_get_config ⟨true, false, 8, 100, -1⟩ = negativeWait := by
  have hset : resetState.step (pmhw_set_config ⟨true, 8⟩ negativeWait) =
      some (resetState.setConfig ⟨true, false, 8, 100, -1⟩) := rfl
  have htrigger : Of Connectal.step (resetState.setConfig ⟨true, false, 8, 100, -1⟩) .triggerDriver
      { resetState.setConfig ⟨true, false, 8, 100, -1⟩ with
        fakeTxnDriver := (resetState.setConfig ⟨true, false, 8, 100, -1⟩).fakeTxnDriver.trigger } := rfl
  have hlabels : ∀ label ∈ [Connectal.Label.triggerDriver], label.configures = false := by simp [Connectal.Label.configures]
  exact (config_round_trip ⟨true, 8⟩ negativeWait hset (Run.single htrigger) hlabels
    (expect_eq_some.mpr rfl)).1

end Pmhw

end Puppetmaster.Wrapper
