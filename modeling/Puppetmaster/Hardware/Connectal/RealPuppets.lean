import Puppetmaster.Hardware.Connectal.Admissions

namespace Puppetmaster.Hardware

open Library Library.Transition

theorem Pm.workDoneQ_step {s t : Pm} {label : Pm.Label} (h : s.step label = some t)
    (hput : ∀ msg, label ≠ .workDone_put msg) : t.workDoneQ.items ⊆ s.workDoneQ.items := by
  cases fires_of_step h with
  | workDone_put => exact absurd rfl (hput _)
  | clearWorkDone hdone => exact fun msg hmsg => hdone ▸ List.mem_cons_of_mem _ hmsg
  | _ => exact List.Subset.refl _

theorem Pm.workDoneQ_put {s t : Pm} {msg : WorkDoneMessage} (h : s.step (.workDone_put msg) = some t) :
    t.workDoneQ.items = s.workDoneQ.items ++ [msg] := by
  cases fires_of_step h with
  | workDone_put hdone => exact hdone

-- A transaction is removed from the list that the oldest message names.
theorem Pm.removedFrom_eq_none {s t : Pm} {label : Pm.Label} (h : s.step label = some t) {pid : PuppetId}
    (hpid : ∀ done ∈ s.workDoneQ.items, done.puppetId ≠ pid) : Label.removedFrom pid label = none := by
  cases fires_of_step h with
  | @clearWorkDone done txn qw txns hdone htxns =>
      exact Label.removedFrom_other txn (hpid done (hdone ▸ List.mem_cons_self))
  | _ => rfl

namespace Connectal

variable {c d : Connectal} {label : Label} {labels : List Label}

-- No configuration selects the simulated puppets.
def Label.keepsReal : Label → Prop
  | .setConfig cfg => cfg.useSimulatedPuppets = false
  | _ => True

instance : (label : Label) → Decidable label.keepsReal
  | .setConfig cfg => inferInstanceAs (Decidable (cfg.useSimulatedPuppets = false))
  | .fetchConfig _ | .addTransaction _ | .triggerDriver | .reportWorkDone _ | .transactionScheduled _
  | .populate_txn _ | .transactions _ | .scheduled _ | .workDone _ | .pm _ | .executor _ | .endCycle _ =>
      instDecidableTrue

abbrev KeepingReal : Connectal → Label → Connectal → Prop := Meeting step fun _ label => label.keepsReal

structure RealPuppets (c : Connectal) : Prop where
  executorMux : c.executorMux = 0
  answers : ∀ msg ∈ c.pm.workDoneQ.items, msg.puppetId = 0

theorem executorMux_step (hstep : c.step label = some d) (hreal : label.keepsReal) (hmux : c.executorMux = 0) :
    d.executorMux = 0 := by
  by_cases hconfigures : label.configures = false
  · have hsame := congrArg TopConfig.useSimulatedPuppets ((frame_of_step hstep).fetchConfig_eq hconfigures)
    simp only [fetchConfig, hmux] at hsame
    revert hsame
    generalize d.executorMux = index
    revert index
    decide
  · cases label with
    | setConfig cfg =>
        obtain rfl := Option.some.inj hstep
        have hcfg : cfg.useSimulatedPuppets = false := hreal
        rw [Connectal.setConfig, hcfg]
        rfl
    | _ => exact absurd rfl hconfigures

theorem answer_real {msg : WorkDoneMessage} (hstep : c.step (.workDone msg) = some d) (hmux : c.executorMux = 0) :
    msg.puppetId = 0 := by
  obtain ⟨e, hget, -⟩ := Option.bind_eq_some_iff.mp hstep
  rw [response_get, if_pos hmux] at hget
  obtain ⟨real, hanswer, -⟩ := Option.bind_eq_some_iff.mp hget
  obtain ⟨_, -, hmsg⟩ := Option.bind_eq_some_iff.mp (expect_eq_some.mp hanswer)
  obtain ⟨rfl, -⟩ := Prod.mk.inj (Option.some.inj hmsg)
  rfl

theorem RealPuppets.step (h : RealPuppets c) (hstep : c.step label = some d) (hreal : label.keepsReal) :
    RealPuppets d := by
  refine ⟨executorMux_step hstep hreal h.executorMux, ?_⟩
  have hframe := frame_of_step hstep
  cases hlabel : label.pmLabel with
  | none => exact hframe.pm_eq hlabel ▸ h.answers
  | some l =>
      have hpm := hframe.pm_step l hlabel
      by_cases hput : ∃ msg, l = .workDone_put msg
      · obtain ⟨msg, rfl⟩ := hput
        cases label with
        | workDone msg' =>
            obtain rfl : msg' = msg := Pm.Label.workDone_put.inj (Option.some.inj hlabel)
            intro answer hanswer
            rw [Pm.workDoneQ_put hpm, List.mem_append, List.mem_singleton] at hanswer
            rcases hanswer with hanswer | rfl
            · exact h.answers answer hanswer
            · exact answer_real hstep h.executorMux
        | pm l =>
            rw [Label.pmLabel] at hlabel
            split at hlabel
            · obtain rfl := Option.some.inj hlabel
              contradiction
            · cases hlabel
        | _ => cases hlabel
      · have hput : ∀ msg, l ≠ .workDone_put msg := fun msg heq => hput ⟨msg, heq⟩
        exact fun msg hmsg => h.answers msg (Pm.workDoneQ_step hpm hput hmsg)

-- The transactions that are scheduled on a puppet.
def Label.scheduledOn (pid : PuppetId) (label : Label) : Option Hashed :=
  label.pmLabel.bind (Pm.Label.enteredAt pid)

theorem RealPuppets.removed_eq_none (h : RealPuppets c) (hstep : c.step label = some d) {pid : PuppetId}
    (hpid : pid ≠ 0) : label.pmLabel.bind (Pm.Label.removedFrom pid) = none := by
  cases hlabel : label.pmLabel with
  | none => rfl
  | some l =>
      have hpm := (frame_of_step hstep).pm_step l hlabel
      exact Pm.removedFrom_eq_none hpm fun done hdone => (h.answers done hdone).symm ▸ hpid.symm

section

variable {isCompat : Bool} {main shadow : TxnFingerprint} {driver executor : TIndex} {cfg : TopConfig}

theorem realPuppets_run (hcfg : cfg.useSimulatedPuppets = false)
    (hrun : Run KeepingReal (Connectal.configured isCompat main shadow driver executor cfg) labels c) :
    RealPuppets c ∧ ∀ msg, Label.workDone msg ∈ labels → msg.puppetId = 0 := by
  have hmux : (Connectal.configured isCompat main shadow driver executor cfg).executorMux = 0 := by
    rw [Connectal.configured, setConfig, hcfg]
    rfl
  refine hrun.history (fun labels c => RealPuppets c ∧ ∀ msg, Label.workDone msg ∈ labels → msg.puppetId = 0)
    ⟨⟨hmux, List.forall_mem_nil _⟩, fun _ hmsg => by cases hmsg⟩ fun labels c label d h hstep => ?_
  refine ⟨h.1.step hstep.1 hstep.2, fun msg hmsg => ?_⟩
  rcases List.mem_append.mp hmsg with hmsg | hmsg
  · exact h.2 msg hmsg
  · obtain rfl := List.mem_singleton.mp hmsg
    exact answer_real hstep.1 h.1.executorMux

theorem removed_eq_nil (hcfg : cfg.useSimulatedPuppets = false)
    (hrun : Run KeepingReal (Connectal.configured isCompat main shadow driver executor cfg) labels c)
    {pid : PuppetId} (hpid : pid ≠ 0) :
    trace (Pm.Label.removedFrom pid) (trace Label.pmLabel labels) = [] := by
  induction hrun with
  | nil => rfl
  | snoc earlier hlast ih =>
      rw [trace_trace] at ih ⊢
      rw [trace_snoc, ih, (realPuppets_run hcfg earlier).1.removed_eq_none hlast.1 hpid]
      rfl

-- The real executor answers for puppet 0: what is scheduled on another puppet is never removed,
-- and this puppet gets no more than its list has places for.
theorem real_executor_clears_one_puppet (hcfg : cfg.useSimulatedPuppets = false)
    (hrun : Run KeepingReal (Connectal.configured isCompat main shadow driver executor cfg) labels c) :
    (∀ msg, Label.workDone msg ∈ labels → msg.puppetId = 0) ∧
      ∀ pid : PuppetId, pid ≠ 0 → trace (Label.scheduledOn pid) labels = c.pm.active pid ∧
        (trace (Label.scheduledOn pid) labels).length ≤ ActivePerPuppet := by
  refine ⟨(realPuppets_run hcfg hrun).2, fun pid hpid => ?_⟩
  obtain ⟨first, hledger⟩ := ledger_run (hrun.mono fun _ _ _ h => h.1)
  have hlisted := hledger.listed pid
  have hentered : trace (Pm.Label.enteredAt pid) (.setNumPuppets first :: trace Label.pmLabel labels) =
      trace (Label.scheduledOn pid) labels := trace_trace _ _ _
  have hremoved : trace (Pm.Label.removedFrom pid) (.setNumPuppets first :: trace Label.pmLabel labels) = [] :=
    removed_eq_nil hcfg hrun hpid
  rw [hentered, hremoved, List.nil_append] at hlisted
  exact ⟨hlisted, hlisted ▸ (c.pm.puppetTxns pid).bound⟩

end

-- A transaction that the host has reported stays on puppet 1.

def realConfig : TopConfig := ⟨true, false, 8, 0, 0⟩

def realState : Connectal :=
  configured false (hashTxn Pm.writesZero) (hashTxn Pm.writesZero) 0 0 realConfig

def reportedRun : List Label :=
  [.addTransaction Pm.writesZero, .triggerDriver, .pm .mainFinish, .pm .shadowFinish] ++
    deliverRun ⟨0, Pm.writesZero⟩ ++ (Pm.admitRun ⟨0, Pm.writesZero⟩ 1).map .pm ++
    [.scheduled ⟨7, 1⟩, .transactionScheduled 7, .reportWorkDone 7,
      .workDone ⟨7, 0⟩]

theorem real_executor_clears_one_puppet_reported :
    ∃ c, Run KeepingReal realState reportedRun c ∧ c.pm.active 1 = [Submitted.hash ⟨0, Pm.writesZero⟩] := by
  have hexec : (exec (guarded step fun _ label => label.keepsReal) realState reportedRun).isSome = true := by
    decide +kernel
  obtain ⟨c, hc⟩ := Option.isSome_iff_exists.mp hexec
  have hrun := run_meeting_of_exec hc
  exact ⟨c, hrun, ((real_executor_clears_one_puppet rfl hrun).2 1 (by decide)).1.symm⟩

end Connectal

end Puppetmaster.Hardware
