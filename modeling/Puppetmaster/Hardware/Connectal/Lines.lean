import Puppetmaster.Hardware.Connectal.Stops

namespace Puppetmaster.Hardware.Connectal

open Library Library.Transition Runner

variable {n : PuppetCount} {c d : Connectal} {label : Label}

-- The clock cycles that have ended.
def Label.endsCycle : Label → Bool
  | .endCycle _ => true
  | _ => false

def elapsed (labels : List Label) : ℕ := labels.countP Label.endsCycle

theorem elapsed_snoc (labels : List Label) (label : Label) :
    elapsed (labels ++ [label]) = elapsed labels + if label.endsCycle then 1 else 0 := by
  rw [elapsed, List.countP_append, List.countP_singleton, elapsed]

theorem mem_pm_output {s : Pm} {cycle : Timestamp} {l : Pm.Label} {x : HwLine}
    (hx : x ∈ (s.output cycle l).filterMap HwOutput.txnLine) : x.cycle = cycle ∧ x.event ≠ .submitted := by
  cases l with
  | lookaheadStep3a txn pid =>
      obtain rfl := List.mem_singleton.mp hx
      exact ⟨rfl, by simp⟩
  | clearWorkDone txn pid =>
      cases hfirst : s.workDoneQ.first with
      | none => simp [Pm.output, hfirst] at hx
      | some done =>
          rw [Pm.output, hfirst] at hx
          obtain rfl := List.mem_singleton.mp hx
          exact ⟨rfl, by simp⟩
  | _ => cases hx

theorem mem_executor_output {s : FakeExecutor} {l : FakeExecutor.Label} {x : HwLine}
    (hx : x ∈ (s.output l).filterMap HwOutput.txnLine) : x.cycle = s.cycle ∧ x.event ≠ .submitted := by
  cases l with
  | reportDone msg =>
      obtain rfl := List.mem_singleton.mp hx
      exact ⟨rfl, by simp⟩
  | startWork i =>
      cases hfirst : (s.puppetQ i).first with
      | none => simp [FakeExecutor.output, hfirst] at hx
      | some msg =>
          rw [FakeExecutor.output, hfirst] at hx
          obtain rfl := List.mem_singleton.mp hx
          exact ⟨rfl, by simp⟩
  | _ => cases hx

-- What a step prints bears the cycle in which it is taken, and only the driver prints that a
-- transaction is submitted.
theorem Simulated.prints (h : Simulated n c) (hstep : c.step label = some d) :
    ∃ new, d.lines = c.lines ++ new ∧ (∀ l ∈ new, l.cycle = c.cycle) ∧
      ((∀ txn, label ≠ .populate_txn (some txn)) → ∀ l ∈ new, l.event ≠ .submitted) ∧
      d.cycle = (if label.endsCycle then c.cycle + 1 else c.cycle) ∧ (label.endsCycle = true → new = []) := by
  cases h.moves_of_step hstep with
  | submitted =>
      refine ⟨_, lines_line rfl, fun l hl => ?_, fun hlabel => absurd rfl (hlabel _), rfl, nofun⟩
      obtain rfl := List.mem_singleton.mp hl
      exact h.driverCycle
  | pm =>
      exact ⟨_, lines_append rfl, fun x hx => (mem_pm_output hx).1, fun _ x hx => (mem_pm_output hx).2,
        rfl, nofun⟩
  | executor =>
      exact ⟨_, lines_append rfl, fun x hx => (mem_executor_output hx).1.trans h.executorCycle,
        fun _ x hx => (mem_executor_output hx).2, rfl, nofun⟩
  | _ => exact ⟨[], (List.append_nil _).symm, nofun, fun _ => nofun, rfl, fun _ => rfl⟩

-- The counter is right as long as it has not come round.
structure Timed (labels : List Label) (c : Connectal) : Prop where
  cycle : c.cycle.toNat = elapsed labels
  past : ∀ l ∈ c.lines, l.cycle.toNat ≤ elapsed labels
  sorted : c.lines.Pairwise fun a b => a.cycle.toNat ≤ b.cycle.toNat

theorem Timed.step {labels : List Label} (h : Timed labels c) (hsim : Simulated n c)
    (hstep : c.step label = some d) (hlt : elapsed (labels ++ [label]) < 2 ^ 64) :
    Timed (labels ++ [label]) d := by
  obtain ⟨new, hlines, hnew, -, hcycle, hends⟩ := hsim.prints hstep
  have hnow : ∀ l ∈ new, l.cycle.toNat = elapsed labels := fun l hl => by rw [hnew l hl, h.cycle]
  have hmono : elapsed labels ≤ elapsed (labels ++ [label]) := by
    rw [elapsed_snoc]
    omega
  refine ⟨?_, fun l hl => ?_, ?_⟩
  · rw [elapsed_snoc] at hlt ⊢
    rw [hcycle]
    by_cases hend : label.endsCycle = true
    · rw [if_pos hend] at hlt ⊢
      rw [if_pos hend, BitVec.toNat_add, h.cycle]
      exact Nat.mod_eq_of_lt hlt
    · rw [if_neg hend, if_neg hend, h.cycle]
      rfl
  · rw [hlines, List.mem_append] at hl
    rcases hl with hl | hl
    · exact (h.past l hl).trans hmono
    · exact (hnow l hl).trans_le hmono
  · rw [hlines, List.pairwise_append]
    refine ⟨h.sorted, ?_, fun a ha b hb => ?_⟩
    · exact List.pairwise_of_forall_mem_list fun a ha b hb => ((hnow a ha).trans (hnow b hb).symm).le
    · exact (h.past a ha).trans (hnow b hb).ge

def told (c : Connectal) (txnId : TransactionId) : List HwEvent :=
  (c.lines.filter fun l => l.txnId = txnId).map HwLine.event

theorem told_eq_history (c : Connectal) (txnId : TransactionId) :
    c.told txnId = history (BitVec.toNat ∘ HwLine.txnId) HwLine.event c.lines txnId.toNat := by
  rw [told, history]
  simp only [Function.comp_apply, BitVec.toNat_inj]

-- What the lines of a run are like for those who read them.
structure InOrder (labels : List Label) (c : Connectal) : Prop where
  told : ∀ txnId, ∃ pid, c.told txnId <+: course pid
  known : ∀ l ∈ c.lines, l.txnId ∈ trace Label.added labels
  sorted : c.lines.Pairwise fun a b => a.cycle.toNat ≤ b.cycle.toNat

section

variable {isCompat : Bool} {main shadow : TxnFingerprint} {driver executor : TIndex} {cfg : TopConfig}
  {labels : List Label}

theorem Simulated.run (hcfg : Simulates n cfg)
    (hrun : Run (Keeping n) (Connectal.configured isCompat main shadow driver executor cfg) labels c) :
    Simulated n c :=
  hrun.invariant (Simulated n) (Simulated.configured isCompat main shadow driver executor hcfg)
    fun _ _ _ h hstep => h.step hstep.2 hstep.1

theorem OnCourse.run (hcfg : Simulates n cfg)
    (hrun : Run (Keeping n) (Connectal.configured isCompat main shadow driver executor cfg) labels c)
    (hdistinct : (trace Label.added labels).Nodup) : OnCourse (trace Label.added labels) c := by
  have hboth := hrun.history
    (fun labels c => Simulated n c ∧
      ((trace Label.added labels).Nodup → OnCourse (trace Label.added labels) c))
    ⟨Simulated.configured isCompat main shadow driver executor hcfg, fun _ => ?_⟩
    fun labels c label d h hstep => ⟨h.1.step hstep.2 hstep.1, fun hdistinct => ?_⟩
  · exact hboth.2 hdistinct
  · exact Journey.init fun stop => by cases stop <;> rfl
  · rw [trace_snoc] at hdistinct ⊢
    have hearlier := (List.nodup_append.mp hdistinct).1
    exact (h.2 hearlier).step h.1 hstep.1 hdistinct

theorem Timed.run (hcfg : Simulates n cfg)
    (hrun : Run (Keeping n) (Connectal.configured isCompat main shadow driver executor cfg) labels c)
    (hlt : elapsed labels < 2 ^ 64) : Timed labels c := by
  have hboth := hrun.history
    (fun labels c => Simulated n c ∧ (elapsed labels < 2 ^ 64 → Timed labels c))
    ⟨Simulated.configured isCompat main shadow driver executor hcfg, fun _ => ⟨rfl, nofun, .nil⟩⟩
    fun labels c label d h hstep => ⟨h.1.step hstep.2 hstep.1, fun hlt => ?_⟩
  · exact hboth.2 hlt
  · have hearlier : elapsed labels < 2 ^ 64 := by
      rw [elapsed_snoc] at hlt
      omega
    exact (h.2 hearlier).step h.1 hstep.1 hlt

theorem told_along_course (hcfg : Simulates n cfg)
    (hrun : Run (Keeping n) (Connectal.configured isCompat main shadow driver executor cfg) labels c)
    (hdistinct : (trace Label.added labels).Nodup) (txnId : TransactionId) :
    ∃ pid, c.told txnId <+: course pid := by
  rw [told_eq_history]
  rcases (OnCourse.run hcfg hrun hdistinct).exists_story toNat_injective txnId with
    ⟨stop, -, hstory⟩ | ⟨-, hnone⟩
  · exact stop.story_prefix hstory
  · exact ⟨0, hnone ▸ List.nil_prefix⟩

-- Each transaction is submitted, scheduled, executed, reported and removed in this order and
-- on one puppet, and the times on the lines do not go back.
theorem lines_in_order (hcfg : Simulates n cfg)
    (hrun : Run (Keeping n) (Connectal.configured isCompat main shadow driver executor cfg) labels c)
    (hdistinct : (trace Label.added labels).Nodup) (hlt : elapsed labels < 2 ^ 64) :
    InOrder labels c where
  told := told_along_course hcfg hrun hdistinct
  known := (OnCourse.run hcfg hrun hdistinct).known
  sorted := (Timed.run hcfg hrun hlt).sorted

end

-- The host adds two transactions; the driver submits one after the other, and both are at
-- work at the same time.

def deliverRun (txn : Submitted) : List Label :=
  [.populate_txn (some txn.txn), .transactions txn, .pm .doHash, .pm .hasherToInputQ, .pm .drainInput,
    .endCycle fun _ => false]

def scheduleRun (txn : Submitted) (pid : PuppetId) : List Label :=
  (Pm.admitRun txn pid).map .pm ++ [.scheduled (txn.hash.message pid), .executor .fanout,
    .executor (.startWork pid), .endCycle fun p => p = pid]

def finishRun (txn : Submitted) (pid : PuppetId) : List Label :=
  [.executor (.reportDone ⟨txn.txn.txnId, pid⟩), .workDone ⟨txn.txn.txnId, pid⟩,
    .pm (.clearWorkDone txn.hash pid)]

def simulatedConfig : TopConfig := ⟨true, true, 8, 0, 0⟩

def configuredState : Connectal :=
  configured false (hashTxn Pm.writesZero) (hashTxn Pm.writesZero) 0 0 simulatedConfig

def overlapRun : List Label :=
  [.addTransaction Pm.writesZero, .addTransaction Pm.writesOne, .triggerDriver, .pm .mainFinish,
    .pm .shadowFinish] ++ deliverRun ⟨0, Pm.writesZero⟩ ++ deliverRun ⟨1, Pm.writesOne⟩ ++
  scheduleRun ⟨0, Pm.writesZero⟩ 0 ++ scheduleRun ⟨1, Pm.writesOne⟩ 1 ++ finishRun ⟨1, Pm.writesOne⟩ 1 ++
  [.endCycle fun p => p = 0] ++ finishRun ⟨0, Pm.writesZero⟩ 0

theorem simulates_simulatedConfig : Simulates 8 simulatedConfig := by decide

def overlapLines : List HwLine :=
  [⟨0, 7, .submitted⟩, ⟨1, 8, .submitted⟩, ⟨2, 7, .scheduled 0⟩, ⟨2, 7, .executing 0⟩,
    ⟨3, 8, .scheduled 1⟩, ⟨3, 8, .executing 1⟩, ⟨4, 8, .done 1⟩, ⟨4, 8, .removed⟩,
    ⟨5, 7, .done 0⟩, ⟨5, 7, .removed⟩]

theorem overlapRun_reaches :
    ∃ c, Run (Keeping 8) configuredState overlapRun c ∧ c.lines = overlapLines := by
  have hexec : (exec (guarded step fun _ label => label.keeps 8) configuredState overlapRun).any
      (fun c => c.lines = overlapLines) = true := by
    decide +kernel
  obtain ⟨c, hc, hlines⟩ := (Option.any_eq_true _ _).mp hexec
  exact ⟨c, run_meeting_of_exec hc, of_decide_eq_true hlines⟩

theorem lines_in_order_overlap :
    ∃ c, Run (Keeping 8) configuredState overlapRun c ∧ c.told 7 = course 0 ∧ InOrder overlapRun c := by
  obtain ⟨c, hrun, hlines⟩ := overlapRun_reaches
  refine ⟨c, hrun, ?_, lines_in_order simulates_simulatedConfig hrun (by decide) (by decide)⟩
  rw [told, hlines]
  decide

end Puppetmaster.Hardware.Connectal
