import Puppetmaster.Hardware.Connectal.Lines

namespace Puppetmaster.Hardware.Connectal

open Library Library.Transition Runner

variable {n : PuppetCount} {c d : Connectal} {label : Label} {labels : List Label}

def Label.put : Label → Option Transaction
  | .addTransaction txn => some txn
  | _ => none

def Label.delivered : Label → Option Transaction
  | .transactions txn => some txn.txn
  | _ => none

def submittedLines (c : Connectal) : List HwLine := c.lines.filter fun l => l.event = .submitted

-- No configuration makes the driver wait for less.
def Label.waits (wait : ℕ) : Label → Prop
  | .setConfig cfg => wait ≤ cfg.txnDriverWaitCycles.toNat
  | _ => True

instance (wait : ℕ) : (label : Label) → Decidable (label.waits wait)
  | .setConfig cfg => inferInstanceAs (Decidable (wait ≤ cfg.txnDriverWaitCycles.toNat))
  | .fetchConfig _ | .addTransaction _ | .triggerDriver | .reportWorkDone _ | .transactionScheduled _
  | .populate_txn _ | .transactions _ | .scheduled _ | .workDone _ | .pm _ | .executor _ | .endCycle _ =>
      instDecidableTrue

abbrev Waiting (n : PuppetCount) (wait : ℕ) : Connectal → Label → Connectal → Prop :=
  Meeting step fun _ label => label.keeps n ∧ label.waits wait

theorem submittedLines_line {l : HwLine} (h : d.lines = c.lines ++ [l]) (hl : l.event = .submitted) :
    d.submittedLines = c.submittedLines ++ [l] := by
  have hsingle : [l].filter (fun l => l.event = .submitted) = [l] := List.filter_eq_self.mpr fun x hx => by
    rw [List.mem_singleton.mp hx, hl]
    rfl
  rw [submittedLines, h, List.filter_append, hsingle, submittedLines]

theorem Simulated.submittedLines_step (h : Simulated n c) (hstep : c.step label = some d)
    (hlabel : ∀ txn, label ≠ .populate_txn (some txn)) : d.submittedLines = c.submittedLines := by
  obtain ⟨new, hlines, -, hnew, -, -⟩ := h.prints hstep
  have hnone : new.filter (fun l => l.event = .submitted) = [] :=
    List.filter_eq_nil_iff.mpr fun l hl => by simpa using hnew hlabel l hl
  rw [submittedLines, hlines, List.filter_append, hnone, List.append_nil, submittedLines]

-- What the host puts goes through the driver in order.
structure Passes (labels : List Label) (c : Connectal) : Prop where
  in_order : trace Label.put labels =
    trace Label.delivered labels ++ c.fakeTxnDriver.outFF.items ++ c.fakeTxnDriver.txns.items
  printed : c.submittedLines.map HwLine.txnId =
    (trace Label.delivered labels ++ c.fakeTxnDriver.outFF.items).map Transaction.txnId

theorem Passes.rest (h : Passes labels c) (hput : label.put = none) (hdelivered : label.delivered = none)
    (hout : d.fakeTxnDriver.outFF = c.fakeTxnDriver.outFF)
    (htxns : d.fakeTxnDriver.txns = c.fakeTxnDriver.txns) (hlines : d.submittedLines = c.submittedLines) :
    Passes (labels ++ [label]) d := by
  constructor
  · rw [trace_snoc_none Label.put labels hput, trace_snoc_none Label.delivered labels hdelivered, hout, htxns]
    exact h.in_order
  · rw [trace_snoc_none Label.delivered labels hdelivered, hout, hlines]
    exact h.printed

theorem Passes.step (h : Passes labels c) (hsim : Simulated n c) (hstep : c.step label = some d) :
    Passes (labels ++ [label]) d := by
  have hlines := hsim.submittedLines_step hstep
  cases hsim.moves_of_step hstep with
  | @addTransaction txn qt htxns =>
      constructor
      · rw [trace_snoc_some Label.put labels rfl, trace_snoc_none Label.delivered labels rfl, h.in_order]
        simp only [htxns, List.append_assoc]
      · rw [trace_snoc_none Label.delivered labels rfl, hlines (by simp)]
        exact h.printed
  | @submitted txn qt qo hstarted hpopulated hwait htxns hout =>
      constructor
      · rw [trace_snoc_none Label.put labels rfl, trace_snoc_none Label.delivered labels rfl, h.in_order,
          htxns]
        simp only [hout, List.append_assoc, List.singleton_append]
      · rw [trace_snoc_none Label.delivered labels rfl, submittedLines_line (lines_line rfl) rfl,
          List.map_append, h.printed]
        simp only [hout, List.map_append, List.map_cons, List.map_nil, List.append_assoc]
  | @transactions txn pm qo hout hpm =>
      constructor
      · rw [trace_snoc_none Label.put labels rfl, trace_snoc_some Label.delivered labels rfl, h.in_order, hout]
        simp only [List.append_assoc, List.singleton_append]
      · rw [trace_snoc_some Label.delivered labels rfl, hlines (by simp), h.printed, hout]
        simp only [List.append_assoc, List.singleton_append]
  | _ => exact h.rest rfl rfl rfl rfl (hlines (by simp))

-- The lines keep their distance, and the timer shows how long ago the last one was.
structure Paced (wait : ℕ) (labels : List Label) (c : Connectal) : Prop where
  waits : wait ≤ c.fakeTxnDriver.totalWaitTime.toNat
  timer : ∀ l ∈ c.submittedLines, l.cycle.toNat + c.fakeTxnDriver.waitTimer.toNat + 1 ≤
    elapsed labels + if c.fakeTxnDriver.populated then 1 else 0
  apart : c.submittedLines.Pairwise fun a b => a.cycle.toNat + wait + 1 ≤ b.cycle.toNat

theorem Paced.rest {wait : ℕ} (h : Paced wait labels c)
    (hwaits : wait ≤ d.fakeTxnDriver.totalWaitTime.toNat)
    (htimer : d.fakeTxnDriver.waitTimer = c.fakeTxnDriver.waitTimer)
    (hpopulated : d.fakeTxnDriver.populated = c.fakeTxnDriver.populated)
    (hlines : d.submittedLines = c.submittedLines) : Paced wait (labels ++ [label]) d := by
  have hmono : elapsed labels ≤ elapsed (labels ++ [label]) := by
    rw [elapsed_snoc]
    omega
  refine ⟨hwaits, fun l hl => ?_, hlines ▸ h.apart⟩
  have hold := h.timer l (hlines ▸ hl)
  rw [htimer, hpopulated]
  omega

theorem Paced.submitted {wait : ℕ} (h : Paced wait labels c) (hsim : Simulated n c)
    (htimed : Timed labels c) (hpopulated : c.fakeTxnDriver.populated = false)
    (hwait : c.fakeTxnDriver.totalWaitTime ≤ c.fakeTxnDriver.waitTimer) {txn : Transaction}
    (hdriver : d.fakeTxnDriver.totalWaitTime = c.fakeTxnDriver.totalWaitTime ∧
      d.fakeTxnDriver.waitTimer = 0 ∧ d.fakeTxnDriver.populated = true)
    (hlines : d.submittedLines = c.submittedLines ++ [⟨c.fakeTxnDriver.cycle, txn.txnId, .submitted⟩])
    (hends : label.endsCycle = false) : Paced wait (labels ++ [label]) d := by
  obtain ⟨htotal, htimer, hpopulated'⟩ := hdriver
  have hnow : c.fakeTxnDriver.cycle.toNat = elapsed labels := by rw [hsim.driverCycle, htimed.cycle]
  have hold : ∀ l ∈ c.submittedLines, l.cycle.toNat + c.fakeTxnDriver.waitTimer.toNat + 1 ≤ elapsed labels := by
    intro l hl
    have htimer := h.timer l hl
    rwa [hpopulated] at htimer
  have hsame : elapsed (labels ++ [label]) = elapsed labels := by
    rw [elapsed_snoc, hends]
    rfl
  refine ⟨htotal ▸ h.waits, fun l hl => ?_, ?_⟩
  · rw [hsame, htimer, hpopulated', if_pos rfl]
    rw [hlines, List.mem_append, List.mem_singleton] at hl
    rcases hl with hl | rfl
    · have hl := hold l hl
      show l.cycle.toNat + 0 + 1 ≤ _
      omega
    · exact Nat.succ_le_succ hnow.le
  · rw [hlines, List.pairwise_append]
    refine ⟨h.apart, List.pairwise_singleton _ _, fun a ha b hb => ?_⟩
    obtain rfl := List.mem_singleton.mp hb
    have ha := hold a ha
    have hwaits := h.waits
    have hwait : c.fakeTxnDriver.totalWaitTime.toNat ≤ c.fakeTxnDriver.waitTimer.toNat := hwait
    rw [hnow]
    omega

theorem Paced.step {wait : ℕ} (h : Paced wait labels c) (hsim : Simulated n c) (htimed : Timed labels c)
    (hwaits : label.waits wait) (hstep : c.step label = some d) : Paced wait (labels ++ [label]) d := by
  have hlines := hsim.submittedLines_step hstep
  cases hsim.moves_of_step hstep with
  | submitted hstarted hpopulated hwait htxns hout =>
      exact h.submitted hsim htimed hpopulated hwait ⟨rfl, rfl, rfl⟩
        (submittedLines_line (lines_line rfl) rfl) rfl
  | waits hpopulated hwait =>
      refine ⟨h.waits, fun l hl => ?_, hlines (by simp) ▸ h.apart⟩
      have hold := h.timer l (hlines (by simp) ▸ hl)
      have hsame : elapsed (labels ++ [.populate_txn none]) = elapsed labels := elapsed_snoc _ _
      have hnext : (c.fakeTxnDriver.waitTimer + 1).toNat = c.fakeTxnDriver.waitTimer.toNat + 1 := by
        have hlt : c.fakeTxnDriver.waitTimer.toNat < c.fakeTxnDriver.totalWaitTime.toNat := hwait
        have hbound := c.fakeTxnDriver.totalWaitTime.isLt
        rw [BitVec.toNat_add]
        exact Nat.mod_eq_of_lt (by show _ + 1 < _; omega)
      rw [hpopulated] at hold
      rw [hsame, hnext]
      simp only [Bool.false_eq_true, if_false, if_true] at hold ⊢
      omega
  | @endCycle grant executor hexec =>
      refine ⟨h.waits, fun l hl => ?_, hlines (by simp) ▸ h.apart⟩
      have hold := h.timer l (hlines (by simp) ▸ hl)
      have hnext : elapsed (labels ++ [.endCycle grant]) = elapsed labels + 1 := elapsed_snoc _ _
      have hone : (if c.fakeTxnDriver.populated then 1 else 0) ≤ 1 := by split <;> omega
      rw [hnext]
      show l.cycle.toNat + c.fakeTxnDriver.waitTimer.toNat + 1 ≤ elapsed labels + 1 + 0
      omega
  | setConfig => exact h.rest hwaits rfl rfl (hlines (by simp))
  | _ => exact h.rest h.waits rfl rfl (hlines (by simp))

def Label.triggers : Label → Bool
  | .triggerDriver => true
  | _ => false

-- The driver does nothing before it is triggered.
structure Untriggered (c : Connectal) : Prop where
  started : c.fakeTxnDriver.started = false
  none_submitted : c.submittedLines = []

theorem Untriggered.step (h : Untriggered c) (hsim : Simulated n c) (hstep : c.step label = some d)
    (htriggers : label.triggers = false) : Untriggered d := by
  have hlines := hsim.submittedLines_step hstep
  cases hsim.moves_of_step hstep with
  | triggerDriver => cases htriggers
  | submitted hstarted => exact absurd (hstarted.symm.trans h.started) (by simp)
  | _ => exact ⟨h.started, (hlines (by simp)).trans h.none_submitted⟩

-- What the driver makes of the transactions that the host adds.
structure Driven (wait : ℕ) (labels : List Label) (c : Connectal) : Prop where
  in_order : trace Label.put labels =
    trace Label.delivered labels ++ c.fakeTxnDriver.outFF.items ++ c.fakeTxnDriver.txns.items
  printed : c.submittedLines.map HwLine.txnId =
    (trace Label.delivered labels ++ c.fakeTxnDriver.outFF.items).map Transaction.txnId
  apart : c.submittedLines.Pairwise fun a b => a.cycle.toNat + wait + 1 ≤ b.cycle.toNat
  triggered : c.submittedLines ≠ [] → ∃ l ∈ labels, l.triggers = true

section

variable {isCompat : Bool} {main shadow : TxnFingerprint} {driver executor : TIndex} {cfg : TopConfig}
  {wait : ℕ}

theorem Passes.run (hcfg : Simulates n cfg)
    (hrun : Run (Keeping n) (Connectal.configured isCompat main shadow driver executor cfg) labels c) :
    Passes labels c :=
  (hrun.history (fun labels c => Simulated n c ∧ Passes labels c)
    ⟨Simulated.configured isCompat main shadow driver executor hcfg, rfl, rfl⟩
    fun _ _ _ _ h hstep => ⟨h.1.step hstep.2 hstep.1, h.2.step h.1 hstep.1⟩).2

theorem Paced.run (hcfg : Simulates n cfg) (hwait : wait ≤ cfg.txnDriverWaitCycles.toNat)
    (hrun : Run (Waiting n wait) (Connectal.configured isCompat main shadow driver executor cfg) labels c)
    (hlt : elapsed labels < 2 ^ 64) : Paced wait labels c := by
  have hall := hrun.history (fun labels c => Simulated n c ∧ (elapsed labels < 2 ^ 64 →
      Timed labels c ∧ Paced wait labels c))
    ⟨Simulated.configured isCompat main shadow driver executor hcfg, fun _ =>
      ⟨⟨rfl, nofun, .nil⟩, hwait, nofun, .nil⟩⟩
    fun labels c label d h hstep => ⟨h.1.step hstep.2.1 hstep.1, fun hlt => ?_⟩
  · exact (hall.2 hlt).2
  · have hearlier : elapsed labels < 2 ^ 64 := by
      rw [elapsed_snoc] at hlt
      omega
    obtain ⟨htimed, hpaced⟩ := h.2 hearlier
    exact ⟨htimed.step h.1 hstep.1 hlt, hpaced.step h.1 htimed hstep.2.2 hstep.1⟩

-- The driver passes on what the host adds in the same order, not before it is triggered, and
-- never two transactions within the time that it has to wait.
theorem driver_paces (hcfg : Simulates n cfg) (hwait : wait ≤ cfg.txnDriverWaitCycles.toNat)
    (hrun : Run (Waiting n wait) (Connectal.configured isCompat main shadow driver executor cfg) labels c)
    (hlt : elapsed labels < 2 ^ 64) : Driven wait labels c := by
  have hpasses := Passes.run hcfg (hrun.mono fun _ _ _ h => ⟨h.1, h.2.1⟩)
  have huntriggered := hrun.history
    (fun labels c => Simulated n c ∧ (labels.any Label.triggers = false → Untriggered c))
    ⟨Simulated.configured isCompat main shadow driver executor hcfg, fun _ => ⟨rfl, rfl⟩⟩
    fun labels c label d h hstep => ⟨h.1.step hstep.2.1 hstep.1, fun hnone => ?_⟩
  · refine ⟨hpasses.in_order, hpasses.printed, (Paced.run hcfg hwait hrun hlt).apart, fun hne => ?_⟩
    have hany : labels.any Label.triggers = true := by
      by_contra hnone
      exact hne (huntriggered.2 (Bool.eq_false_iff.mpr hnone)).none_submitted
    exact List.any_eq_true.mp hany
  · rw [List.any_append, Bool.or_eq_false_iff] at hnone
    have hlabel : label.triggers = false := by simpa using hnone.2
    exact (h.2 hnone.1).step h.1 hstep.1 hlabel

end

def waitRun : List Label :=
  [.populate_txn none, .endCycle fun _ => false, .populate_txn none, .endCycle fun _ => false]

def pacedConfig : TopConfig := ⟨true, true, 8, 0, 2⟩

def pacedState : Connectal :=
  configured false (hashTxn Pm.writesZero) (hashTxn Pm.writesZero) 0 0 pacedConfig

def pacedRun : List Label :=
  [.addTransaction Pm.writesZero, .addTransaction Pm.writesOne, .triggerDriver] ++ waitRun ++
    deliverRun ⟨0, Pm.writesZero⟩ ++ waitRun ++ [.populate_txn (some Pm.writesOne)]

theorem driver_paces_paced :
    ∃ c, Run (Waiting 8 2) pacedState pacedRun c ∧
      c.submittedLines = [⟨2, 7, .submitted⟩, ⟨5, 8, .submitted⟩] ∧ Driven 2 pacedRun c := by
  have hexec : (exec (guarded step fun _ label => label.keeps 8 ∧ label.waits 2) pacedState pacedRun).any
      (fun c => c.submittedLines = [⟨2, 7, .submitted⟩, ⟨5, 8, .submitted⟩]) = true := by
    decide +kernel
  obtain ⟨c, hc, hlines⟩ := (Option.any_eq_true _ _).mp hexec
  have hrun := run_meeting_of_exec hc
  exact ⟨c, hrun, of_decide_eq_true hlines, driver_paces (by decide) (by decide) hrun (by decide)⟩

end Puppetmaster.Hardware.Connectal
