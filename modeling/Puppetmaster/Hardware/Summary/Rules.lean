import Puppetmaster.Hardware.Summary

namespace Puppetmaster.Hardware.Summary

open Library

-- The number of chunks a counter has passed.
def passed : Option BloomChunkIndex → ℕ
  | some c => c
  | none => NumBloomChunks

@[simp] theorem passed_some (c : BloomChunkIndex) : passed (some c) = c := rfl

@[simp] theorem passed_none : passed none = NumBloomChunks := rfl

@[simp] theorem passed_nextChunk (c : BloomChunkIndex) : passed (nextChunk c) = c.val + 1 := by
  have hc : c.val < 4 := c.isLt
  unfold nextChunk
  split_ifs with h
  · rfl
  · simp only [passed_none, NumBloomChunks] at h ⊢
    omega

theorem passed_le (m : Option BloomChunkIndex) : passed m ≤ NumBloomChunks := by
  cases m with
  | none => exact Nat.le_refl _
  | some c => exact Nat.le_of_lt c.isLt

-- What each rule and method requires and does.
inductive Fires (s : Summary) : Label → Summary → Prop
  | requestChunks {c : BloomChunkIndex} {q : Fifo BloomChunkParts 3}
      (hreq : s.mReqChunk = some c) (hstate : s.state ≠ .Free)
      (hq : q.items = s.responses.items ++ [s.bloom c]) :
      Fires s .requestChunks { s with responses := q, mReqChunk := nextChunk c }
  | doReset {c : BloomChunkIndex} (hresp : s.mRespChunk = some c) (hstate : s.state = .Resetting) :
      Fires s .doReset { s with
        bloom := Function.update s.bloom c fun _ => 0
        mRespChunk := nextChunk c }
  | resetDone {u : Undefined} (hresp : s.mRespChunk = none) (hstate : s.state = .Resetting) :
      Fires s (.resetDone u) (s.free u)
  | doAdd_resp {c : BloomChunkIndex} {data : BloomChunkParts} {q : Fifo BloomChunkParts 3}
      (hresp : s.mRespChunk = some c) (hstate : s.state = .Adding)
      (hq : s.responses.items = data :: q.items) :
      Fires s .doAdd_resp { s with
        responses := q
        bloom := Function.update s.bloom c (checkOrAddToChunk data c s.txn).2
        mRespChunk := nextChunk c }
  | addDone {u : Undefined} (hresp : s.mRespChunk = none) (hstate : s.state = .Adding) :
      Fires s (.addDone u) (s.free u)
  | doCheck_resp {c : BloomChunkIndex} {data : BloomChunkParts} {q : Fifo BloomChunkParts 3}
      {compat : CheckResult} (hresp : s.mRespChunk = some c) (hstate : s.state = .Checking)
      (hq : s.responses.items = data :: q.items)
      (hcompat : compat = s.compat.or (checkOrAddToChunk data c s.txn).1) :
      Fires s .doCheck_resp { s with
        responses := q
        compat := compat
        mRespChunk := if checkResultIsGood compat = true then nextChunk c else none }
  | copyDone {u : Undefined} (hresp : s.mRespChunk = none) (hstate : s.state = .Copying) :
      Fires s (.copyDone u) (s.free u)
  | txns_put {t : TxnFingerprint} {u : Undefined} (hstate : s.state = .Free) :
      Fires s (.txns_put t u) { s with
        txn := t
        state := .Adding
        mReqChunk := some 0
        mRespChunk := some 0
        compat := u.compat
        count := s.count + newObjs t }
  | checks_request_put {t : TxnFingerprint} (hstate : s.state = .Free) :
      Fires s (.checks_request_put t) { s with
        txn := t
        state := .Checking
        mReqChunk := some 0
        mRespChunk := some 0
        compat := CheckResult.zero }
  | checks_response_get {answer : Bool} {u : Undefined} (hresp : s.mRespChunk = none)
      (hstate : s.state = .Checking) (hanswer : answer = checkResultIsGood s.compat) :
      Fires s (.checks_response_get answer u) (s.free u)
  | startCopy {newCount : BloomObjCount} {u : Undefined} (hstate : s.state = .Free) :
      Fires s (.startCopy newCount s.count u) { s with
        txn := u.txn
        state := .Copying
        mReqChunk := some 0
        mRespChunk := some 0
        compat := u.compat
        count := newCount }
  | getChunk_get {data : BloomChunkParts} {q : Fifo BloomChunkParts 3}
      (hstate : s.state = .Copying) (hq : s.responses.items = data :: q.items) :
      Fires s (.getChunk_get data) { s with responses := q }
  | setChunk_put {c : BloomChunkIndex} {data : BloomChunkParts}
      (hresp : s.mRespChunk = some c) (hstate : s.state = .Copying) :
      Fires s (.setChunk_put data) { s with
        bloom := Function.update s.bloom c data
        mRespChunk := nextChunk c }

theorem done_eq_some {operation : SummaryState} {s t : Summary} {u : Undefined} :
    done operation s u = some t ↔ s.mRespChunk = none ∧ s.state = operation ∧ s.free u = t := by
  simp [done, Option.bind_eq_some_iff]

theorem fires_of_step {s t : Summary} {label : Label} (h : s.step label = some t) :
    Fires s label t := by
  cases label with
  | requestChunks =>
      simp only [step, Summary.requestChunks, Option.bind_eq_bind, Option.bind_eq_some_iff,
        require_eq_some, exists_const, Fifo.enq_eq_some, Option.some.injEq] at h
      obtain ⟨c, hreq, hstate, q, hq, rfl⟩ := h
      exact .requestChunks hreq hstate hq
  | doReset =>
      simp only [step, Summary.doReset, Option.bind_eq_bind, Option.bind_eq_some_iff,
        require_eq_some, exists_const, Option.some.injEq] at h
      obtain ⟨c, hresp, hstate, rfl⟩ := h
      exact .doReset hresp hstate
  | resetDone u =>
      obtain ⟨hresp, hstate, rfl⟩ := done_eq_some.mp h
      exact .resetDone hresp hstate
  | doAdd_resp =>
      simp only [step, Summary.doAdd_resp, Option.bind_eq_bind, Option.bind_eq_some_iff,
        require_eq_some, exists_const, Prod.exists, Fifo.deq_eq_some, Option.some.injEq] at h
      obtain ⟨c, hresp, hstate, data, q, hq, rfl⟩ := h
      exact .doAdd_resp hresp hstate hq
  | addDone u =>
      obtain ⟨hresp, hstate, rfl⟩ := done_eq_some.mp h
      exact .addDone hresp hstate
  | doCheck_resp =>
      simp only [step, Summary.doCheck_resp, Option.bind_eq_bind, Option.bind_eq_some_iff,
        require_eq_some, exists_const, Prod.exists, Fifo.deq_eq_some, Option.some.injEq] at h
      obtain ⟨c, hresp, hstate, data, q, hq, rfl⟩ := h
      exact .doCheck_resp hresp hstate hq rfl
  | copyDone u =>
      obtain ⟨hresp, hstate, rfl⟩ := done_eq_some.mp h
      exact .copyDone hresp hstate
  | txns_put t u =>
      simp only [step, Summary.txns_put, Option.bind_eq_bind, Option.bind_eq_some_iff,
        require_eq_some, exists_const,
        Option.some.injEq] at h
      obtain ⟨hstate, rfl⟩ := h
      exact .txns_put hstate
  | checks_request_put t =>
      simp only [step, Summary.checks_request_put, Option.bind_eq_bind, Option.bind_eq_some_iff,
        require_eq_some, exists_const,
        Option.some.injEq] at h
      obtain ⟨hstate, rfl⟩ := h
      exact .checks_request_put hstate
  | checks_response_get answer u =>
      simp only [step, expect_eq_some, Summary.checks_response_get, Option.bind_eq_bind,
        Option.bind_eq_some_iff, require_eq_some, exists_const, Option.some.injEq, Prod.mk.injEq] at h
      obtain ⟨hresp, hstate, hanswer, rfl⟩ := h
      exact .checks_response_get hresp hstate hanswer.symm
  | startCopy newCount oldCount u =>
      simp only [step, expect_eq_some, Summary.startCopy, Option.bind_eq_bind,
        Option.bind_eq_some_iff, require_eq_some, exists_const, Option.some.injEq, Prod.mk.injEq] at h
      obtain ⟨hstate, rfl, rfl⟩ := h
      exact .startCopy hstate
  | getChunk_get data =>
      simp only [step, expect_eq_some, Summary.getChunk_get, Option.bind_eq_bind,
        Option.bind_eq_some_iff, require_eq_some, exists_const, Prod.exists, Fifo.deq_eq_some,
        Option.some.injEq, Prod.mk.injEq] at h
      obtain ⟨hstate, data', q, hq, rfl, rfl⟩ := h
      exact .getChunk_get hstate hq
  | setChunk_put data =>
      simp only [step, Summary.setChunk_put, Option.bind_eq_bind, Option.bind_eq_some_iff,
        require_eq_some, exists_const, Option.some.injEq] at h
      obtain ⟨c, hresp, hstate, rfl⟩ := h
      exact .setChunk_put hresp hstate

end Puppetmaster.Hardware.Summary
