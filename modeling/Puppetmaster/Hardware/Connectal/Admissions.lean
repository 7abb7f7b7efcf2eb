import Puppetmaster.Hardware.Connectal.Frame
import Puppetmaster.Hardware.Connectal.Pacing
import Puppetmaster.Hardware.Connectal.Serializable

namespace Puppetmaster.Hardware.Connectal

open Library Library.Transition Runner

variable {n : PuppetCount} {c d : Connectal} {label : Label} {labels : List Label}

theorem Label.delivered_eq (label : Label) :
    label.delivered = (label.pmLabel.bind Pm.Label.acceptedTxn).map Submitted.txn := by
  cases label with
  | pm l =>
      by_cases hrule : l.rule = true
      · rw [pmLabel, if_pos hrule]
        cases l with
        | transactions_put => simp [Pm.Label.rule] at hrule
        | _ => rfl
      · rw [pmLabel, if_neg hrule]
        rfl
  | _ => rfl

def scheduledLines (c : Connectal) : List HwLine := c.lines.filter fun l => l.event.kind = .SCHED_READY

theorem scheduledLines_append {new : List HwLine} (h : d.lines = c.lines ++ new)
    (hnone : scheduledIds new = []) : d.scheduledLines = c.scheduledLines := by
  have hnew : new.filter (fun l => l.event.kind = .SCHED_READY) = [] := by
    refine List.filter_eq_nil_iff.mpr fun l hl hkind => ?_
    have hl := List.filterMap_eq_nil_iff.mp hnone l hl
    rw [scheduledId, if_pos (of_decide_eq_true hkind)] at hl
    cases hl
  rw [scheduledLines, h, List.filter_append, hnew, List.append_nil, scheduledLines]

-- Only step 3.a prints that a transaction is scheduled.
theorem Simulated.scheduledLines_step (h : Simulated n c) (hstep : c.step label = some d)
    (hadmitted : label.admitted = none) : d.scheduledLines = c.scheduledLines := by
  cases h.moves_of_step hstep with
  | submitted => exact scheduledLines_append (lines_line rfl) rfl
  | @pm l pm hrule hadmits hpm =>
      refine scheduledLines_append (lines_append rfl) ?_
      cases l with
      | lookaheadStep3a => cases hadmitted
      | clearWorkDone txn pid =>
          rw [Pm.output]
          cases c.pm.workDoneQ.first <;> rfl
      | _ => rfl
  | executor => exact scheduledLines_append (lines_append rfl) scheduledIds_output
  | _ => rfl

-- At most one transaction is scheduled in a cycle.
structure Spaced (labels : List Label) (c : Connectal) : Prop where
  before : c.admitted = false → ∀ l ∈ c.scheduledLines, l.cycle.toNat < elapsed labels
  apart : c.scheduledLines.Pairwise fun a b => a.cycle.toNat < b.cycle.toNat

theorem Spaced.rest (h : Spaced labels c) (hlines : d.scheduledLines = c.scheduledLines)
    (hadmitted : d.admitted = false → c.admitted = false) : Spaced (labels ++ [label]) d := by
  refine ⟨fun hnone l hl => ?_, hlines ▸ h.apart⟩
  have hold := h.before (hadmitted hnone) l (hlines ▸ hl)
  rw [elapsed_snoc]
  omega

theorem Spaced.step (h : Spaced labels c) (hsim : Simulated n c) (htimed : Timed labels c)
    (hstep : c.step label = some d) : Spaced (labels ++ [label]) d := by
  by_cases hadmitted : label.admitted = none
  · have hlines := hsim.scheduledLines_step hstep hadmitted
    cases hsim.moves_of_step hstep with
    | pm hrule hadmits hpm => exact h.rest hlines fun hnone => (Bool.or_eq_false_iff.mp hnone).1
    | @endCycle grant executor hexec =>
        refine ⟨fun _ l hl => ?_, hlines ▸ h.apart⟩
        rw [hlines] at hl
        have hpast := htimed.past l (List.mem_filter.mp hl).1
        have hnext : elapsed (labels ++ [.endCycle grant]) = elapsed labels + 1 := elapsed_snoc _ _
        omega
    | _ => exact h.rest hlines id
  · cases hsim.moves_of_step hstep with
    | @pm l pm hrule hadmits hpm =>
        cases l with
        | lookaheadStep3a txn pid =>
            have hnew : scheduledLines { c with
                pm := pm
                admitted := c.admitted || true
                printed := c.printed ++ [.line ⟨c.cycle, txn.fingerprint.txnId, .scheduled pid⟩] } =
                c.scheduledLines ++ [⟨c.cycle, txn.fingerprint.txnId, .scheduled pid⟩] := by
              rw [scheduledLines, lines_line rfl, List.filter_append]
              rfl
            refine ⟨fun hnone => ?_, ?_⟩
            · simp [Pm.Label.admits] at hnone
            · refine hnew ▸ List.pairwise_append.mpr ⟨h.apart, List.pairwise_singleton _ _, fun a ha b hb => ?_⟩
              obtain rfl := List.mem_singleton.mp hb
              have hbefore := h.before (hadmits rfl) a ha
              rwa [← htimed.cycle] at hbefore
        | _ => exact absurd rfl hadmitted
    | _ => exact absurd rfl hadmitted

section

variable {isCompat : Bool} {main shadow : TxnFingerprint} {driver executor : TIndex} {cfg : TopConfig}

theorem Spaced.run (hcfg : Simulates n cfg)
    (hrun : Run (Keeping n) (Connectal.configured isCompat main shadow driver executor cfg) labels c)
    (hlt : elapsed labels < 2 ^ 64) : Spaced labels c := by
  have hall := hrun.history
    (fun labels c => Simulated n c ∧ (elapsed labels < 2 ^ 64 → Timed labels c ∧ Spaced labels c))
    ⟨Simulated.configured isCompat main shadow driver executor hcfg, fun _ =>
      ⟨⟨rfl, nofun, .nil⟩, fun _ => nofun, .nil⟩⟩
    fun labels c label d h hstep => ⟨h.1.step hstep.2 hstep.1, fun hlt => ?_⟩
  · exact (hall.2 hlt).2
  · have hearlier : elapsed labels < 2 ^ 64 := by
      rw [elapsed_snoc] at hlt
      omega
    obtain ⟨htimed, hspaced⟩ := h.2 hearlier
    exact ⟨htimed.step h.1 hstep.1 hlt, hspaced.step h.1 htimed hstep.1⟩

theorem ledger_run
    (hrun : Run (Of step) (Connectal.configured isCompat main shadow driver executor cfg) labels c) :
    ∃ first, Pm.Ledger (.setNumPuppets first :: trace Label.pmLabel labels) c.pm := by
  have hset : Of Pm.step (Pm.reset isCompat main shadow) (.setNumPuppets (cfg.numPuppets.setWidth 5))
      (Connectal.configured isCompat main shadow driver executor cfg).pm := rfl
  exact ⟨_, (Run.cons hset (pm_run hrun)).history Pm.Ledger (Pm.Ledger.reset isCompat main shadow)
    fun _ _ _ _ h hstep => h.step hstep⟩

-- What is admitted is among what the host has put.
theorem admitted_put (hcfg : Simulates n cfg)
    (hrun : Run (Keeping n) (Connectal.configured isCompat main shadow driver executor cfg) labels c)
    {txn : Hashed} (htxn : txn ∈ trace Label.admitted labels) :
    txn.source.txn ∈ trace Label.put labels := by
  obtain ⟨first, hledger⟩ := ledger_run (hrun.mono fun _ _ _ h => h.1)
  have hpasses := Passes.run hcfg hrun
  obtain ⟨label, hlabel, hadmitted⟩ := List.mem_filterMap.mp htxn
  obtain ⟨pid, rfl⟩ : ∃ pid, label = .pm (.lookaheadStep3a txn pid) := by
    cases label with
    | pm l =>
        cases l with
        | lookaheadStep3a txn' pid => exact ⟨pid, by rw [Option.some.inj hadmitted]⟩
        | _ => cases hadmitted
    | _ => cases hadmitted
  have hentered : txn ∈ trace (Pm.Label.enteredAt pid) (.setNumPuppets first :: trace Label.pmLabel labels) := by
    refine List.mem_filterMap.mpr ⟨.lookaheadStep3a txn pid, List.mem_cons_of_mem _ ?_, ?_⟩
    · exact List.mem_filterMap.mpr ⟨_, hlabel, rfl⟩
    · exact Pm.Label.enteredAt_self txn pid
  have haccepted : txn.source ∈
      trace Pm.Label.acceptedTxn (.setNumPuppets first :: trace Label.pmLabel labels) := by
    rw [hledger.listed pid, List.mem_append] at hentered
    rcases hentered with hremoved | hactive
    · refine hledger.conserved.known .removed txn.source ?_
      obtain ⟨l, hl, hfrom⟩ := List.mem_filterMap.mp hremoved
      refine List.mem_filterMap.mpr ⟨l, hl, ?_⟩
      cases l with
      | clearWorkDone txn' pid' =>
          rw [Pm.Label.removedFrom] at hfrom
          split at hfrom
          · obtain rfl := Option.some.inj hfrom
            rfl
          · cases hfrom
      | _ => cases hfrom
    · exact hledger.conserved.known (.puppetTxns pid) txn.source (List.mem_map_of_mem hactive)
  have hdelivered : txn.source.txn ∈ trace Label.delivered labels := by
    have haccepted' : txn.source ∈ trace Pm.Label.acceptedTxn (trace Label.pmLabel labels) := haccepted
    rw [trace_trace] at haccepted'
    obtain ⟨label, hlabel, hsome⟩ := List.mem_filterMap.mp haccepted'
    refine List.mem_filterMap.mpr ⟨label, hlabel, ?_⟩
    rw [label.delivered_eq, hsome]
    rfl
  rw [hpasses.in_order, List.append_assoc]
  exact List.mem_append_left _ hdelivered

end

end Puppetmaster.Hardware.Connectal
