import Puppetmaster.Hardware.Summary.Atomic
import Puppetmaster.Library.Transition
import Puppetmaster.Library.Window

namespace Puppetmaster.Hardware.Summary

open Library Library.Transition

def Label.copies : Label → Bool
  | .startCopy .. => true
  | _ => false

def Label.collects : Label → Bool
  | .checks_response_get .. => true
  | _ => false

-- A client that only adds and checks.
abbrev AddOrCheck (label : Label) : Prop := label.copies = false

-- A Check is collected only when no read response is left on port B. The rules of
-- mkSummary do not ensure it: a Check that stops early leaves reads behind.
abbrev CollectsDrained (s : Summary) (label : Label) : Prop :=
  label.collects = true → s.responses.notEmpty = false

-- Reset: the chunks below the counter are cleared.
structure Clearing (s : Summary) (a : AtomicSummary) : Prop where
  drained : s.responses.items = []
  idle : s.mReqChunk = none
  cleared : ∀ c : BloomChunkIndex, c.val < passed s.mRespChunk → s.bloom c = fun _ => 0
  contents : a.contents = fun _ _ => 0

structure Idle (s : Summary) (a : AtomicSummary) : Prop where
  drained : s.responses.items = []
  contents : a.contents = s.bloom

-- Add: the chunks below the response counter are written, those between the two
-- counters are queued with what they held before, and the queue is their window.
structure AddingFrom (s : Summary) (a : AtomicSummary) (mem : BloomMemory) : Prop where
  contents : a.contents = addAll mem s.txn
  ahead : passed s.mRespChunk ≤ passed s.mReqChunk
  queued : s.responses.items = window mem (passed s.mRespChunk) (passed s.mReqChunk)
  bloom : ∀ c : BloomChunkIndex,
    s.bloom c = if c.val < passed s.mRespChunk then addAll mem s.txn c else mem c

-- Check: the result accumulates the chunks below the counter; once the counter is
-- Invalid the verdict stands, whether or not the last chunk was reached.
structure CheckingOn (s : Summary) (a : AtomicSummary) : Prop where
  contents : a.contents = s.bloom
  txn : a.txn = s.txn
  running : ∀ c, s.mRespChunk = some c → c.val ≤ passed s.mReqChunk ∧
    s.responses.items = window s.bloom c (passed s.mReqChunk) ∧
    Accumulates s.bloom s.txn {d | d.val < c.val} s.compat
  stopped : s.mRespChunk = none →
    (checkResultIsGood s.compat = true ↔ Bloom.Compatible (marked s.bloom) s.txn.objs)

structure Tracks (s : Summary) (a : AtomicSummary) : Prop where
  state : a.state = s.state
  resetting : s.state = .Resetting → Clearing s a
  free : s.state = .Free → Idle s a
  adding : s.state = .Adding → ∃ mem, AddingFrom s a mem
  checking : s.state = .Checking → CheckingOn s a
  copying : s.state ≠ .Copying

namespace Tracks

variable {s t : Summary} {a : AtomicSummary}

theorem of_resetting (hs : s.state = .Resetting) (ha : a.state = .Resetting) (h : Clearing s a) :
    Tracks s a := by
  constructor <;> simp [hs, ha, h]

theorem of_free (hs : s.state = .Free) (ha : a.state = .Free) (h : Idle s a) : Tracks s a := by
  constructor <;> simp [hs, ha, h]

theorem of_adding (mem : BloomMemory) (hs : s.state = .Adding) (ha : a.state = .Adding)
    (h : AddingFrom s a mem) : Tracks s a := by
  constructor <;> simp [hs, ha]
  exact ⟨mem, h⟩

theorem of_checking (hs : s.state = .Checking) (ha : a.state = .Checking) (h : CheckingOn s a) :
    Tracks s a := by
  constructor <;> simp [hs, ha, h]

theorem requestChunks {c : BloomChunkIndex} {q : Fifo BloomChunkParts 3} (h : Tracks s a)
    (hreq : s.mReqChunk = some c) (hstate : s.state ≠ .Free)
    (hq : q.items = s.responses.items ++ [s.bloom c]) :
    Tracks { s with responses := q, mReqChunk := nextChunk c } a := by
  have hpassed : passed s.mReqChunk = c := by rw [hreq, passed_some]
  refine ⟨h.state, fun hs => ?_, fun hs => absurd hs hstate, fun hs => ?_, fun hs => ?_, h.copying⟩
  · have hidle := (h.resetting hs).idle
    simp [hreq] at hidle
  · obtain ⟨mem, hadd⟩ := h.adding hs
    have hahead : passed s.mRespChunk ≤ c := hpassed ▸ hadd.ahead
    have hread : s.bloom c = mem c := by rw [hadd.bloom c, if_neg (by omega)]
    refine ⟨mem, hadd.contents, ?_, ?_, hadd.bloom⟩
    · simp only [passed_nextChunk]
      omega
    · simp only [passed_nextChunk]
      rw [hq, hadd.queued, hpassed, hread, window_succ_right c hahead]
  · have hcheck := h.checking hs
    refine ⟨hcheck.contents, hcheck.txn, fun c' hc' => ?_, hcheck.stopped⟩
    obtain ⟨hle, hqueued, hacc⟩ := hcheck.running c' hc'
    rw [hpassed] at hle hqueued
    refine ⟨?_, ?_, hacc⟩
    · simp only [passed_nextChunk]
      omega
    · simp only [passed_nextChunk]
      rw [hq, hqueued, window_succ_right c hle]

theorem doReset {c : BloomChunkIndex} (h : Tracks s a) (hresp : s.mRespChunk = some c)
    (hstate : s.state = .Resetting) :
    Tracks { s with bloom := Function.update s.bloom c fun _ => 0, mRespChunk := nextChunk c } a := by
  have hclear := h.resetting hstate
  refine of_resetting hstate (h.state.trans hstate)
    ⟨hclear.drained, hclear.idle, fun d hd => ?_, hclear.contents⟩
  simp only [passed_nextChunk] at hd
  by_cases hdc : d = c
  · subst hdc
    exact Function.update_self _ _ _
  · have hne : d.val ≠ c.val := fun he => hdc (Fin.ext he)
    have hold : s.bloom d = fun _ => 0 := by
      apply hclear.cleared
      rw [hresp, passed_some]
      omega
    exact (Function.update_of_ne hdc _ _).trans hold

theorem resetDone {u : Undefined} (h : Tracks s a) (hresp : s.mRespChunk = none)
    (hstate : s.state = .Resetting) :
    ∃ b, a.finish = some b ∧ Tracks (s.free u) b := by
  have hclear := h.resetting hstate
  refine ⟨_, AtomicSummary.finish_eq_some.mpr ⟨Or.inl (h.state.trans hstate), rfl⟩, ?_⟩
  refine of_free rfl rfl ⟨hclear.drained, ?_⟩
  rw [hclear.contents]
  funext c
  exact (hclear.cleared c (by rw [hresp]; exact c.isLt)).symm

theorem txns_put {t : TxnFingerprint} {u : Undefined} (h : Tracks s a) (hstate : s.state = .Free) :
    ∃ b, a.txns_put t = some b ∧ Tracks { s with
      txn := t
      state := .Adding
      mReqChunk := some 0
      mRespChunk := some 0
      compat := u.compat
      count := s.count + newObjs t } b := by
  have hidle := h.free hstate
  refine ⟨_, AtomicSummary.txns_put_eq_some.mpr ⟨h.state.trans hstate, rfl⟩, ?_⟩
  refine of_adding s.bloom rfl rfl ⟨?_, Nat.le_refl _, ?_, fun c => ?_⟩
  · simp only [hidle.contents]
  · simp only [hidle.drained, window_self]
  · exact (if_neg (Nat.not_lt_zero _)).symm

-- The response consumed for chunk `c` is what chunk `c` held when it was read, and
-- the chunk still holds it.
theorem doAdd_resp {c : BloomChunkIndex} {data : BloomChunkParts} {q : Fifo BloomChunkParts 3}
    (h : Tracks s a) (hresp : s.mRespChunk = some c) (hstate : s.state = .Adding)
    (hq : s.responses.items = data :: q.items) :
    Tracks { s with
      responses := q
      bloom := Function.update s.bloom c (checkOrAddToChunk data c s.txn).2
      mRespChunk := nextChunk c } a := by
  obtain ⟨mem, hadd⟩ := h.adding hstate
  have hqueued := hadd.queued
  rw [hresp, passed_some, hq] at hqueued
  obtain ⟨hc, hlt, rfl, hrest⟩ := eq_of_window_cons c.val hqueued
  refine of_adding mem hstate (h.state.trans hstate)
    ⟨hadd.contents, ?_, ?_, fun d => ?_⟩
  · simp only [passed_nextChunk]
    omega
  · simpa only [passed_nextChunk] using hrest
  · simp only [passed_nextChunk]
    by_cases hdc : d = c
    · subst hdc
      rw [Function.update_self, if_pos (Nat.lt_succ_self _), addAll_apply]
    · have hne : d.val ≠ c.val := fun he => hdc (Fin.ext he)
      rw [Function.update_of_ne hdc, hadd.bloom d, hresp, passed_some]
      exact if_congr (by omega) rfl rfl

theorem addDone {u : Undefined} (h : Tracks s a) (hresp : s.mRespChunk = none)
    (hstate : s.state = .Adding) :
    ∃ b, a.finish = some b ∧ Tracks (s.free u) b := by
  obtain ⟨mem, hadd⟩ := h.adding hstate
  refine ⟨_, AtomicSummary.finish_eq_some.mpr ⟨Or.inr (Or.inl (h.state.trans hstate)), rfl⟩, ?_⟩
  refine of_free rfl rfl ⟨?_, ?_⟩
  · have hreq : passed s.mReqChunk = NumBloomChunks :=
      Nat.le_antisymm (passed_le _) (by simpa only [hresp, passed_none] using hadd.ahead)
    have hqueued := hadd.queued
    rwa [hresp, hreq, passed_none, window_self] at hqueued
  · rw [hadd.contents]
    funext c
    exact (hadd.bloom c).trans (if_pos (by rw [hresp]; exact c.isLt)) |>.symm

theorem checks_request_put {t : TxnFingerprint} (h : Tracks s a) (hstate : s.state = .Free) :
    ∃ b, a.checks_request_put t = some b ∧ Tracks { s with
      txn := t
      state := .Checking
      mReqChunk := some 0
      mRespChunk := some 0
      compat := CheckResult.zero } b := by
  have hidle := h.free hstate
  refine ⟨_, AtomicSummary.checks_request_put_eq_some.mpr ⟨h.state.trans hstate, rfl⟩, ?_⟩
  refine of_checking rfl rfl ⟨hidle.contents, rfl, fun c hc => ?_, fun hc => ?_⟩
  · obtain rfl := Option.some.inj hc
    have hnone : {d : BloomChunkIndex | d.val < (0 : BloomChunkIndex).val} = ∅ := by
      ext d
      simp
    refine ⟨Nat.le_refl _, ?_, ?_⟩
    · simp only [hidle.drained, passed_some, window_self]
    · rw [hnone]
      exact Accumulates.zero
  · simp at hc

theorem doCheck_resp {c : BloomChunkIndex} {data : BloomChunkParts} {q : Fifo BloomChunkParts 3}
    {compat : CheckResult} (h : Tracks s a) (hresp : s.mRespChunk = some c)
    (hstate : s.state = .Checking) (hq : s.responses.items = data :: q.items)
    (hcompat : compat = s.compat.or (checkOrAddToChunk data c s.txn).1) :
    Tracks { s with
      responses := q
      compat := compat
      mRespChunk := if checkResultIsGood compat = true then nextChunk c else none } a := by
  have hcheck := h.checking hstate
  obtain ⟨-, hqueued, hacc⟩ := hcheck.running c hresp
  rw [hq] at hqueued
  obtain ⟨hc, hlt, rfl, hrest⟩ := eq_of_window_cons c.val hqueued
  have hseen : insert c {d : BloomChunkIndex | d.val < c.val} = {d | d.val < c.val + 1} := by
    ext d
    simp only [Set.mem_insert_iff, Set.mem_ofPred_eq, Fin.ext_iff]
    omega
  have hnext := hacc.or c
  rw [← hcompat, hseen] at hnext
  refine of_checking hstate (h.state.trans hstate)
    ⟨hcheck.contents, hcheck.txn, fun c' hc' => ?_, fun hnone => ?_⟩
  · simp only at hc'
    split at hc'
    · have hc1 := passed_nextChunk c
      rw [hc', passed_some] at hc1
      rw [hc1]
      exact ⟨hlt, hrest, hnext⟩
    · simp at hc'
  · simp only at hnone
    split at hnone
    · have hc1 := passed_nextChunk c
      rw [hnone, passed_none] at hc1
      exact hnext.good_iff fun d => hc1 ▸ d.isLt
    · rename_i hbad
      exact iff_of_false hbad (hnext.not_compatible hbad)

-- Whether or not it stopped early, a completed Check has the right answer.
theorem answer_eq (h : Tracks s a) (hresp : s.mRespChunk = none) (hstate : s.state = .Checking) :
    AtomicSummary.verdict a.contents a.txn = checkResultIsGood s.compat := by
  have hcheck := h.checking hstate
  rw [Bool.eq_iff_iff, AtomicSummary.verdict_iff, hcheck.contents, hcheck.txn]
  exact (hcheck.stopped hresp).symm

theorem checks_response_get {u : Undefined} (h : Tracks s a) (hresp : s.mRespChunk = none)
    (hstate : s.state = .Checking) (hdrained : s.responses.items = []) :
    ∃ b, a.checks_response_get = some (checkResultIsGood s.compat, b) ∧ Tracks (s.free u) b :=
  ⟨_, AtomicSummary.checks_response_get_eq_some.mpr
      ⟨h.state.trans hstate, h.answer_eq hresp hstate, rfl⟩,
    of_free rfl rfl ⟨hdrained, (h.checking hstate).contents⟩⟩

-- Every rule and method of a client that adds, checks and collects drained Checks.
theorem step {label : Label} (h : Tracks s a) (hstep : s.step label = some t)
    (hclient : AddOrCheck label) (hdrained : CollectsDrained s label) :
    ∃ b, a.follow label = some b ∧ Tracks t b := by
  cases fires_of_step hstep with
  | requestChunks hreq hstate hq => exact ⟨a, rfl, h.requestChunks hreq hstate hq⟩
  | doReset hresp hstate => exact ⟨a, rfl, h.doReset hresp hstate⟩
  | resetDone hresp hstate => exact h.resetDone hresp hstate
  | doAdd_resp hresp hstate hq => exact ⟨a, rfl, h.doAdd_resp hresp hstate hq⟩
  | addDone hresp hstate => exact h.addDone hresp hstate
  | doCheck_resp hresp hstate hq hcompat =>
      exact ⟨a, rfl, h.doCheck_resp hresp hstate hq hcompat⟩
  | copyDone hresp hstate => exact absurd hstate h.copying
  | txns_put hstate => exact h.txns_put hstate
  | checks_request_put hstate => exact h.checks_request_put hstate
  | checks_response_get hresp hstate hanswer =>
      have hempty := Fifo.notEmpty_eq_false.mp (hdrained rfl)
      obtain ⟨b, hb, htracks⟩ := h.checks_response_get hresp hstate hempty
      exact ⟨b, AtomicSummary.follow_checks_response_get.mpr (hanswer ▸ hb), htracks⟩
  | startCopy hstate => exact absurd hclient (by simp [AddOrCheck, Label.copies])
  | getChunk_get hstate hq => exact absurd hstate h.copying
  | setChunk_put hresp hstate => exact absurd hstate h.copying

theorem reset (mem : BloomMemory) (u : Undefined) :
    Tracks (Summary.reset mem u) (AtomicSummary.reset u.txn) :=
  of_resetting rfl rfl
    ⟨rfl, rfl, fun _ hc => absurd hc (Nat.not_lt_zero _), rfl⟩

end Tracks

-- The steps of a client that adds and checks and never leaves a read behind.
abbrev DrainedStep : Summary → Label → Summary → Prop :=
  Meeting step fun s label => AddOrCheck label ∧ CollectsDrained s label

-- On drained runs mkSummary refines the atomic filter.
theorem refines_atomic {mem : BloomMemory} {u : Undefined} {labels : List Label} {s : Summary}
    (hrun : Run DrainedStep (reset mem u) labels s) :
    ∃ a, Run (Of AtomicSummary.follow) (AtomicSummary.reset u.txn) labels a ∧ Tracks s a :=
  hrun.simulation (Tracks.reset mem u) fun _ _ _ _ h hstep =>
    h.step hstep.1 hstep.2.1 hstep.2.2

end Puppetmaster.Hardware.Summary
