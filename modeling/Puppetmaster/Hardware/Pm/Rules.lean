import Puppetmaster.Hardware.Pm

namespace Puppetmaster.Hardware.Pm

open Library

variable {s t : Pm}

-- What each rule and method requires and does.
inductive Fires (s : Pm) : Label → Pm → Prop
  | transactions_put {txn : Submitted} {q : Fifo Submitted 1}
      (hserial : txn.serial = s.accepted) (hin : q.items = s.hasherIn.items ++ [txn]) :
      Fires s (.transactions_put txn) { s with accepted := s.accepted + 1, hasherIn := q }
  | doHash {x : Submitted} {qi : Fifo Submitted 1} {qo : Fifo Hashed 1}
      (hin : s.hasherIn.items = x :: qi.items)
      (hout : qo.items = s.hasherOut.items ++ [x.hash]) :
      Fires s .doHash { s with hasherIn := qi, hasherOut := qo }
  | hasherToInputQ {txn : Hashed} {qo : Fifo Hashed 1} {qi : Fifo Hashed InputBufferSize}
      (hout : s.hasherOut.items = txn :: qo.items) (hin : qi.items = s.inputQ.items ++ [txn]) :
      Fires s .hasherToInputQ { s with hasherOut := qo, inputQ := qi }
  | drainReinsert {txn : Hashed} {qr : Fifo Hashed 1} {qb : Fifo Hashed LookaheadBufferSize}
      (hstate : s.state = .Normal) (hre : s.lookaheadReinsert.items = txn :: qr.items)
      (hbuf : qb.items = s.lookaheadBuffer.items ++ [txn]) :
      Fires s .drainInput { s with lookaheadReinsert := qr, lookaheadBuffer := qb }
  | drainNew {txn : Hashed} {qi : Fifo Hashed InputBufferSize}
      {qb : Fifo Hashed LookaheadBufferSize}
      (hstate : s.state = .Normal) (hre : s.lookaheadReinsert.items = [])
      (hin : s.inputQ.items = txn :: qi.items)
      (hbuf : qb.items = s.lookaheadBuffer.items ++ [txn]) :
      Fires s .drainInput { s with inputQ := qi, lookaheadBuffer := qb }
  | pipePuppetArbResult {grant : PuppetId → Bool} :
      Fires s (.pipePuppetArbResult grant) { s with puppetArbResult := grant }
  | drainLookahead {txn : Hashed} {rest : List Hashed} (hpred : s.hasFreePuppet = true)
      (hstate : s.state = .Normal) (hfsm : s.lookaheadFSM = .idle)
      (hbuf : s.lookaheadBuffer.items = txn :: rest) (hmain : s.mainSummary.state = .Free) :
      Fires s (.drainLookahead txn) { s with
        mainSummary := { s.mainSummary with state := .Checking, txn := txn.fingerprint }
        lookaheadFSM := .step2 }
  | lookaheadStep2 {answer : Bool} (hpred : s.lookaheadPred) (hfsm : s.lookaheadFSM = .step2)
      (hmain : s.mainSummary.state = .Checking) :
      Fires s (.lookaheadStep2 answer) { s with
        mainSummary := { s.mainSummary with state := .Free }
        isCompat := answer
        lookaheadFSM := .step3 }
  | lookaheadStep3a {txn : Hashed} {pid : PuppetId} {qb : Fifo Hashed LookaheadBufferSize}
      {qs : Fifo Hashed 2} {qm : Fifo ScheduleMessage (SchedSize + 1)}
      {txns : Fifo Hashed ActivePerPuppet}
      (hpid : BitVec.ofNat 5 pid.val < s.numPuppets) (hfsm : s.lookaheadFSM = .step3)
      (hcompat : s.isCompat = true) (hbuf : s.lookaheadBuffer.items = txn :: qb.items)
      (hmain : s.mainSummary.state = .Free) (hshadow : qs.items = s.shadowQ.items ++ [txn])
      (hsched : qm.items = s.schedQ.items ++ [txn.message pid])
      (htxns : txns.items = (s.puppetTxns pid).items ++ [txn]) :
      Fires s (.lookaheadStep3a txn pid) { s with
        lookaheadFailCount := 0
        lookaheadBuffer := qb
        mainSummary := ⟨addAll s.mainSummary.contents txn.fingerprint, .Adding, txn.fingerprint⟩
        shadowQ := qs
        schedQ := qm
        numTxnScheduled := s.numTxnScheduled + 1
        puppetTxns := Function.update s.puppetTxns pid txns
        lookaheadFSM := .idle }
  | lookaheadStep3b {txn : Hashed} {qb : Fifo Hashed LookaheadBufferSize} {qr : Fifo Hashed 1}
      (hpred : s.lookaheadPred) (hfsm : s.lookaheadFSM = .step3) (hcompat : s.isCompat = false)
      (hbuf : s.lookaheadBuffer.items = txn :: qb.items)
      (hre : qr.items = s.lookaheadReinsert.items ++ [txn]) :
      Fires s (.lookaheadStep3b txn) { s with
        lookaheadFailCount := s.lookaheadFailCount + 1
        lookaheadBuffer := qb
        lookaheadReinsert := qr
        lookaheadFSM := .idle }
  | shadowUpdateNew {txn : Hashed} {qs : Fifo Hashed 2} (hshadow : s.shadowQ.items = txn :: qs.items)
      (hfree : s.shadowSummary.state = .Free) :
      Fires s .shadowUpdateNew { s with
        shadowQ := qs
        shadowSummary := ⟨addAll s.shadowSummary.contents txn.fingerprint, .Adding, txn.fingerprint⟩ }
  | walkPut {txn : Hashed} (hcomplete : s.shadowComplete = false)
      (hentry : s.walkEntry = some txn) (hfree : s.shadowSummary.state = .Free) :
      Fires s (.shadowUpdateExisting (some txn)) { s with
        shadowSummary := ⟨addAll s.shadowSummary.contents txn.fingerprint, .Adding, txn.fingerprint⟩
        shadowEntryIndex := s.shadowEntryIndex + 1 }
  | walkNext (hcomplete : s.shadowComplete = false) (hentry : s.walkEntry = none)
      (hmore : BitVec.ofNat 5 s.shadowPuppetIndex.val < s.numPuppets - 1) :
      Fires s (.shadowUpdateExisting none) { s with
        shadowPuppetIndex := s.shadowPuppetIndex + 1
        shadowEntryIndex := 0 }
  | walkEnd (hcomplete : s.shadowComplete = false) (hentry : s.walkEntry = none)
      (hlast : ¬BitVec.ofNat 5 s.shadowPuppetIndex.val < s.numPuppets - 1) :
      Fires s (.shadowUpdateExisting none) { s with
        shadowPuppetIndex := 0
        shadowEntryIndex := 0
        shadowComplete := true }
  | clearWorkDone {done : WorkDoneMessage} {txn : Hashed}
      {qw : Fifo WorkDoneMessage (1 + SchedSize)} {txns : Fifo Hashed ActivePerPuppet}
      (hdone : s.workDoneQ.items = done :: qw.items)
      (htxns : (s.puppetTxns done.puppetId).items = txn :: txns.items) :
      Fires s (.clearWorkDone txn done.puppetId) { s with
        numTxnScheduled := s.numTxnScheduled - 1
        puppetTxns := Function.update s.puppetTxns done.puppetId txns
        workDoneQ := qw }
  | startRefresh (hstate : s.state = .Normal)
      (hfail : s.lookaheadFailCount = BitVec.ofNat 2 LookaheadBufferSize)
      (hcomplete : s.shadowComplete = true) (hshadow : s.shadowSummary.state = .Free)
      (hmain : s.mainSummary.state = .Free) :
      Fires s .startRefresh { s with
        lookaheadFailCount := 0
        shadowSummary := { s.shadowSummary with contents := fun _ _ => 0, state := .Copying }
        mainSummary := { s.mainSummary with contents := s.shadowSummary.contents, state := .Copying }
        state := .Switching }
  | mainFinish (hbusy : s.mainSummary.state = .Resetting ∨ s.mainSummary.state = .Adding ∨
        s.mainSummary.state = .Copying) :
      Fires s .mainFinish { s with mainSummary := { s.mainSummary with state := .Free } }
  | shadowFinish (hbusy : s.shadowSummary.state = .Resetting ∨ s.shadowSummary.state = .Adding ∨
        s.shadowSummary.state = .Copying) :
      Fires s .shadowFinish { s with shadowSummary := { s.shadowSummary with state := .Free } }
  | switchDone (hstate : s.state = .Switching) (hmain : s.mainSummary.isFree = true)
      (hshadow : s.shadowSummary.isFree = true) :
      Fires s .switchDone { s with
        shadowPuppetIndex := 0
        shadowEntryIndex := 0
        shadowComplete := false
        state := .Normal }
  | setNumPuppets {n : PuppetCount} : Fires s (.setNumPuppets n) { s with numPuppets := n }
  | scheduled_get {msg : ScheduleMessage} {qm : Fifo ScheduleMessage (SchedSize + 1)}
      (hsched : s.schedQ.items = msg :: qm.items) :
      Fires s (.scheduled_get msg) { s with schedQ := qm }
  | workDone_put {msg : WorkDoneMessage} {qw : Fifo WorkDoneMessage (1 + SchedSize)}
      (hdone : qw.items = s.workDoneQ.items ++ [msg]) :
      Fires s (.workDone_put msg) { s with workDoneQ := qw }

theorem lt_numPuppets_of_free {pid : PuppetId} (hfree : s.hasFreePuppet = true)
    (hpid : s.freePuppetId = some pid) : BitVec.ofNat 5 pid.val < s.numPuppets := by
  rw [hasFreePuppet, hpid, Option.any_some] at hfree
  exact of_decide_eq_true hfree

theorem fires_transactions_put {txn : Submitted} (h : s.transactions_put txn = some t) :
    Fires s (.transactions_put txn) t := by
  simp only [Pm.transactions_put, Option.bind_eq_bind, Option.bind_eq_some_iff, require_eq_some,
    exists_const, Fifo.enq_eq_some, Option.some.injEq] at h
  obtain ⟨hserial, q, hin, rfl⟩ := h
  exact .transactions_put hserial hin

theorem fires_doHash (h : s.doHash = some t) : Fires s .doHash t := by
  simp only [Pm.doHash, Option.bind_eq_bind, Option.bind_eq_some_iff, Prod.exists,
    Fifo.deq_eq_some, Fifo.enq_eq_some, Option.some.injEq] at h
  obtain ⟨x, qi, hin, qo, hout, rfl⟩ := h
  exact .doHash hin hout

theorem fires_hasherToInputQ (h : s.hasherToInputQ = some t) : Fires s .hasherToInputQ t := by
  simp only [Pm.hasherToInputQ, Option.bind_eq_bind, Option.bind_eq_some_iff, Prod.exists,
    Fifo.deq_eq_some, Fifo.enq_eq_some, Option.some.injEq] at h
  obtain ⟨txn, qo, hout, qi, hin, rfl⟩ := h
  exact .hasherToInputQ hout hin

theorem fires_drainInput (h : s.drainInput = some t) : Fires s .drainInput t := by
  simp only [Pm.drainInput, Option.bind_eq_bind, Option.bind_eq_some_iff, require_eq_some,
    exists_const] at h
  obtain ⟨hstate, h⟩ := h
  split at h
  · simp only [Option.bind_eq_some_iff, Prod.exists, Fifo.deq_eq_some, Fifo.enq_eq_some,
      Option.some.injEq] at h
    obtain ⟨txn, qr, hre, qb, hbuf, rfl⟩ := h
    exact .drainReinsert hstate hre hbuf
  · rename_i hempty
    have hre := Fifo.notEmpty_eq_false.mp (Bool.not_eq_true _ ▸ hempty)
    simp only [Option.bind_eq_some_iff, Prod.exists, Fifo.deq_eq_some, Fifo.enq_eq_some,
      Option.some.injEq] at h
    obtain ⟨txn, qi, hin, qb, hbuf, rfl⟩ := h
    exact .drainNew hstate hre hin hbuf

theorem fires_drainLookahead {txn : Hashed} (h : s.drainLookahead = some (txn, t)) :
    Fires s (.drainLookahead txn) t := by
  simp only [Pm.drainLookahead, Option.bind_eq_bind, Option.bind_eq_some_iff, require_eq_some,
    exists_const, Fifo.first_eq_some, AtomicSummary.checks_request_put_eq_some, Option.some.injEq,
    Prod.mk.injEq] at h
  obtain ⟨⟨hpred, hstate⟩, hfsm, txn, ⟨rest, hbuf⟩, main, ⟨hmain, rfl⟩, rfl, rfl⟩ := h
  exact .drainLookahead hpred.2 hstate hfsm hbuf hmain

theorem fires_lookaheadStep2 {answer : Bool} (h : s.lookaheadStep2 answer = some t) :
    Fires s (.lookaheadStep2 answer) t := by
  simp only [Pm.lookaheadStep2, Option.bind_eq_bind, Option.bind_eq_some_iff, require_eq_some,
    exists_const, Prod.exists, AtomicSummary.checks_response_get_eq_some, Option.some.injEq] at h
  obtain ⟨⟨hpred, hfsm⟩, verdict, main, ⟨hmain, -, rfl⟩, rfl⟩ := h
  exact .lookaheadStep2 hpred hfsm hmain

theorem fires_lookaheadStep3a {txn : Hashed} {pid : PuppetId}
    (h : s.lookaheadStep3a = some ((txn, pid), t)) : Fires s (.lookaheadStep3a txn pid) t := by
  simp only [Pm.lookaheadStep3a, Option.bind_eq_bind, Option.bind_eq_some_iff, require_eq_some,
    exists_const, Prod.exists, Fifo.deq_eq_some, Fifo.enq_eq_some,
    AtomicSummary.txns_put_eq_some, Option.some.injEq, Prod.mk.injEq] at h
  obtain ⟨⟨hpred, hfsm, hcompat⟩, pid, hpid, txn, qb, hbuf, main, ⟨hmain, rfl⟩, qs, hshadow, qm,
    hsched, txns, htxns, ⟨rfl, rfl⟩, rfl⟩ := h
  exact .lookaheadStep3a (lt_numPuppets_of_free hpred.2 hpid) hfsm hcompat hbuf hmain hshadow hsched
    htxns

theorem fires_lookaheadStep3b {txn : Hashed} (h : s.lookaheadStep3b = some (txn, t)) :
    Fires s (.lookaheadStep3b txn) t := by
  simp only [Pm.lookaheadStep3b, Option.bind_eq_bind, Option.bind_eq_some_iff, require_eq_some,
    exists_const, Prod.exists, Fifo.deq_eq_some, Fifo.enq_eq_some, Option.some.injEq,
    Prod.mk.injEq] at h
  obtain ⟨⟨hpred, hfsm, hcompat⟩, txn, qb, hbuf, qr, hre, rfl, rfl⟩ := h
  exact .lookaheadStep3b hpred hfsm hcompat hbuf hre

theorem fires_shadowUpdateNew (h : s.shadowUpdateNew = some t) : Fires s .shadowUpdateNew t := by
  simp only [Pm.shadowUpdateNew, Option.bind_eq_bind, Option.bind_eq_some_iff, Prod.exists,
    Fifo.deq_eq_some, AtomicSummary.txns_put_eq_some, Option.some.injEq] at h
  obtain ⟨txn, qs, hshadow, shadow, ⟨hfree, rfl⟩, rfl⟩ := h
  exact .shadowUpdateNew hshadow hfree

theorem fires_shadowUpdateExisting {walked : Option Hashed}
    (h : s.shadowUpdateExisting = some (walked, t)) : Fires s (.shadowUpdateExisting walked) t := by
  simp only [Pm.shadowUpdateExisting, Option.bind_eq_bind, Option.bind_eq_some_iff,
    require_eq_some, exists_const] at h
  obtain ⟨hcomplete, h⟩ := h
  split at h
  · rename_i txn hentry
    simp only [Option.bind_eq_some_iff, AtomicSummary.txns_put_eq_some, Option.some.injEq,
      Prod.mk.injEq] at h
    obtain ⟨shadow, ⟨hfree, rfl⟩, rfl, rfl⟩ := h
    exact .walkPut hcomplete hentry hfree
  · rename_i hentry
    split at h
    · rename_i hmore
      simp only [Option.some.injEq, Prod.mk.injEq] at h
      obtain ⟨rfl, rfl⟩ := h
      exact .walkNext hcomplete hentry hmore
    · rename_i hlast
      simp only [Option.some.injEq, Prod.mk.injEq] at h
      obtain ⟨rfl, rfl⟩ := h
      exact .walkEnd hcomplete hentry hlast

theorem fires_clearWorkDone {txn : Hashed} {pid : PuppetId}
    (h : s.clearWorkDone = some ((txn, pid), t)) : Fires s (.clearWorkDone txn pid) t := by
  simp only [Pm.clearWorkDone, Option.bind_eq_bind, Option.bind_eq_some_iff, Prod.exists,
    Fifo.deq_eq_some, Option.some.injEq, Prod.mk.injEq] at h
  obtain ⟨done, qw, hdone, txn, txns, htxns, ⟨rfl, rfl⟩, rfl⟩ := h
  exact .clearWorkDone hdone htxns

theorem fires_startRefresh (h : s.startRefresh = some t) : Fires s .startRefresh t := by
  simp only [Pm.startRefresh, Option.bind_eq_bind, Option.bind_eq_some_iff, require_eq_some,
    exists_const, AtomicSummary.startCopy_eq_some, Option.some.injEq] at h
  obtain ⟨⟨hstate, hfail, hcomplete⟩, shadow, ⟨hshadow, rfl⟩, main, ⟨hmain, rfl⟩, rfl⟩ := h
  exact .startRefresh hstate hfail hcomplete hshadow hmain

theorem fires_finish_switch {label : Label} (h : s.step label = some t)
    (hlabel : label = .mainFinish ∨ label = .shadowFinish ∨ label = .switchDone) :
    Fires s label t := by
  rcases hlabel with rfl | rfl | rfl
  · simp only [step, Pm.mainFinish, Option.bind_eq_bind, Option.bind_eq_some_iff,
      AtomicSummary.finish_eq_some, Option.some.injEq] at h
    obtain ⟨main, ⟨hbusy, rfl⟩, rfl⟩ := h
    exact .mainFinish hbusy
  · simp only [step, Pm.shadowFinish, Option.bind_eq_bind, Option.bind_eq_some_iff,
      AtomicSummary.finish_eq_some, Option.some.injEq] at h
    obtain ⟨shadow, ⟨hbusy, rfl⟩, rfl⟩ := h
    exact .shadowFinish hbusy
  · simp only [step, Pm.switchDone, Option.bind_eq_bind, Option.bind_eq_some_iff, require_eq_some,
      exists_const, Option.some.injEq] at h
    obtain ⟨⟨hstate, hmain, hshadow⟩, rfl⟩ := h
    exact .switchDone hstate hmain hshadow

theorem fires_scheduled_get {msg : ScheduleMessage} (h : s.scheduled_get = some (msg, t)) :
    Fires s (.scheduled_get msg) t := by
  simp only [Pm.scheduled_get, Option.bind_eq_bind, Option.bind_eq_some_iff, Prod.exists,
    Fifo.deq_eq_some, Option.some.injEq, Prod.mk.injEq] at h
  obtain ⟨msg, qm, hsched, rfl, rfl⟩ := h
  exact .scheduled_get hsched

theorem fires_workDone_put {msg : WorkDoneMessage} (h : s.workDone_put msg = some t) :
    Fires s (.workDone_put msg) t := by
  simp only [Pm.workDone_put, Option.bind_eq_bind, Option.bind_eq_some_iff, Fifo.enq_eq_some,
    Option.some.injEq] at h
  obtain ⟨qw, hdone, rfl⟩ := h
  exact .workDone_put hdone

theorem fires_of_step {label : Label} (h : s.step label = some t) : Fires s label t := by
  cases label with
  | transactions_put txn => exact fires_transactions_put h
  | doHash => exact fires_doHash h
  | hasherToInputQ => exact fires_hasherToInputQ h
  | drainInput => exact fires_drainInput h
  | pipePuppetArbResult grant =>
      obtain rfl := Option.some.inj h
      exact .pipePuppetArbResult
  | drainLookahead txn => exact fires_drainLookahead (expect_eq_some.mp h)
  | lookaheadStep2 answer => exact fires_lookaheadStep2 h
  | lookaheadStep3a txn pid => exact fires_lookaheadStep3a (expect_eq_some.mp h)
  | lookaheadStep3b txn => exact fires_lookaheadStep3b (expect_eq_some.mp h)
  | shadowUpdateNew => exact fires_shadowUpdateNew h
  | shadowUpdateExisting walked => exact fires_shadowUpdateExisting (expect_eq_some.mp h)
  | clearWorkDone txn pid => exact fires_clearWorkDone (expect_eq_some.mp h)
  | startRefresh => exact fires_startRefresh h
  | mainFinish => exact fires_finish_switch h (Or.inl rfl)
  | shadowFinish => exact fires_finish_switch h (Or.inr (Or.inl rfl))
  | switchDone => exact fires_finish_switch h (Or.inr (Or.inr rfl))
  | setNumPuppets n =>
      obtain rfl := Option.some.inj h
      exact .setNumPuppets
  | scheduled_get msg => exact fires_scheduled_get (expect_eq_some.mp h)
  | workDone_put msg => exact fires_workDone_put h

end Puppetmaster.Hardware.Pm
