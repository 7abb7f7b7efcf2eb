import Puppetmaster.Hardware.Summary.Rules
import Puppetmaster.Library.Transition
import Puppetmaster.Library.Window

namespace Puppetmaster.Hardware.Summary

open Library Library.Transition

def Label.gotChunk : Label → Option BloomChunkParts
  | .getChunk_get data => some data
  | _ => none

def Label.putChunk : Label → Option BloomChunkParts
  | .setChunk_put data => some data
  | _ => none

-- The chunks a client got and put, in the order of its calls.
def gets (labels : List Label) : List BloomChunkParts := trace Label.gotChunk labels

def puts (labels : List Label) : List BloomChunkParts := trace Label.putChunk labels

-- A client that gets every chunk before it replaces it. The module does not ask for this:
-- setChunk.put looks at mRespChunk alone, and so does copyDone.
def GetsFirst (labels : List Label) : Prop :=
  ∀ front ∈ labels.inits, (puts front).length ≤ (gets front).length

instance (labels : List Label) : Decidable (GetsFirst labels) :=
  inferInstanceAs (Decidable (∀ front ∈ labels.inits, _))

-- A chunk is replaced only after its read was accepted.
abbrev ReadsAhead (s : Summary) (label : Label) : Prop :=
  label.putChunk.isSome = true → passed s.mRespChunk < passed s.mReqChunk

-- The steps between startCopy and the return to Free, for any client.
abbrev CopyStep : Summary → Label → Summary → Prop := Meeting step fun s _ => s.state = .Copying

-- What such a step does.
inductive CopyFires (s : Summary) : Label → Summary → Prop
  | requestChunks {c : BloomChunkIndex} {q : Fifo BloomChunkParts 3}
      (hreq : s.mReqChunk = some c) (hq : q.items = s.responses.items ++ [s.bloom c]) :
      CopyFires s .requestChunks { s with responses := q, mReqChunk := nextChunk c }
  | getChunk_get {data : BloomChunkParts} {q : Fifo BloomChunkParts 3}
      (hq : s.responses.items = data :: q.items) :
      CopyFires s (.getChunk_get data) { s with responses := q }
  | setChunk_put {c : BloomChunkIndex} {data : BloomChunkParts} (hresp : s.mRespChunk = some c) :
      CopyFires s (.setChunk_put data) { s with
        bloom := Function.update s.bloom c data
        mRespChunk := nextChunk c }
  | copyDone {u : Undefined} (hresp : s.mRespChunk = none) : CopyFires s (.copyDone u) (s.free u)

theorem fires_of_copyStep {s t : Summary} {label : Label} (hstep : CopyStep s label t) :
    CopyFires s label t := by
  obtain ⟨hfires, hcopying⟩ := hstep
  cases fires_of_step hfires with
  | requestChunks hreq _ hq => exact .requestChunks hreq hq
  | getChunk_get _ hq => exact .getChunk_get hq
  | setChunk_put hresp _ => exact .setChunk_put hresp
  | copyDone hresp _ => exact .copyDone hresp
  | doReset _ hstate | resetDone _ hstate | doAdd_resp _ hstate | addDone _ hstate
  | doCheck_resp _ hstate | txns_put hstate | checks_request_put hstate
  | checks_response_get _ hstate | startCopy hstate => simp [hcopying] at hstate

-- The chunks that were put come first in the memory, whatever was read.
structure Replaced (old : BloomMemory) (put : List BloomChunkParts) (s : Summary) : Prop where
  counted : passed s.mRespChunk = put.length
  replaced : ∀ k : BloomChunkIndex, s.bloom k = put[k.val]?.getD (old k)

-- Copy mode after some gets and puts: reads run ahead of both, and the response queue is
-- the window between the gets and the reads.
structure CopyingFrom (old : BloomMemory) (got put : List BloomChunkParts) (s : Summary) : Prop
    extends Replaced old put s where
  returned : got = (List.ofFn old).take got.length
  ahead : got.length ≤ passed s.mReqChunk ∧ put.length ≤ passed s.mReqChunk
  queued : s.responses.items = window old got.length (passed s.mReqChunk)

theorem Replaced.setChunk_put {old : BloomMemory} {put : List BloomChunkParts} {s : Summary}
    {c : BloomChunkIndex} {data : BloomChunkParts} (h : Replaced old put s)
    (hresp : s.mRespChunk = some c) :
    Replaced old (put ++ [data]) { s with
      bloom := Function.update s.bloom c data
      mRespChunk := nextChunk c } := by
  have hc : c.val = put.length := by rw [← h.counted, hresp, passed_some]
  refine ⟨?_, fun k => ?_⟩
  · simp only [passed_nextChunk, List.length_append, List.length_singleton, hc]
  · by_cases hk : k = c
    · subst hk
      simp [hc]
    · have hne : k.val ≠ put.length := fun he => hk (Fin.ext (he.trans hc.symm))
      refine (Function.update_of_ne hk _ _).trans ((h.replaced k).trans ?_)
      rcases Nat.lt_or_gt_of_ne hne with hlt | hgt
      · rw [List.getElem?_append_left hlt]
      · rw [List.getElem?_eq_none (by omega), List.getElem?_eq_none (by simp; omega)]

namespace CopyingFrom

variable {old : BloomMemory} {got put : List BloomChunkParts} {s : Summary}

theorem start {newCount : BloomObjCount} {u : Undefined} (hdrained : s.responses.items = []) :
    CopyingFrom s.bloom [] [] { s with
      txn := u.txn
      state := .Copying
      mReqChunk := some 0
      mRespChunk := some 0
      compat := u.compat
      count := newCount } where
  counted := rfl
  replaced k := rfl
  returned := rfl
  ahead := ⟨Nat.le_refl _, Nat.le_refl _⟩
  queued := by simp only [hdrained, List.length_nil, passed_some, Fin.val_zero, window_self]

theorem requestChunks {c : BloomChunkIndex} {q : Fifo BloomChunkParts 3}
    (h : CopyingFrom old got put s) (hreq : s.mReqChunk = some c)
    (hq : q.items = s.responses.items ++ [s.bloom c]) :
    CopyingFrom old got put { s with responses := q, mReqChunk := nextChunk c } := by
  obtain ⟨hgot, hput⟩ := h.ahead
  rw [hreq, passed_some] at hgot hput
  have hread : s.bloom c = old c := by
    rw [h.replaced c, List.getElem?_eq_none hput, Option.getD_none]
  refine ⟨⟨h.counted, h.replaced⟩, h.returned, ?_, ?_⟩
  · simp only [passed_nextChunk]
    omega
  · simp only [passed_nextChunk]
    rw [hq, h.queued, hreq, passed_some, hread, window_succ_right c hgot]

-- The oldest response is the chunk with the number of gets so far.
theorem getChunk_get {data : BloomChunkParts} {q : Fifo BloomChunkParts 3}
    (h : CopyingFrom old got put s) (hq : s.responses.items = data :: q.items) :
    CopyingFrom old (got ++ [data]) put { s with responses := q } := by
  have hqueued := h.queued
  rw [hq] at hqueued
  obtain ⟨hc, hlt, rfl, hrest⟩ := eq_of_window_cons got.length hqueued
  refine ⟨⟨h.counted, h.replaced⟩, ?_, ⟨?_, h.ahead.2⟩, ?_⟩
  · rw [← List.length_ofFn (f := old)] at hc
    rw [List.length_append, List.length_singleton, List.take_succ_eq_append_getElem hc,
      ← h.returned, List.getElem_ofFn]
  · rw [List.length_append, List.length_singleton]
    exact hlt
  · rw [List.length_append, List.length_singleton]
    exact hrest

theorem setChunk_put {c : BloomChunkIndex} {data : BloomChunkParts}
    (h : CopyingFrom old got put s) (hresp : s.mRespChunk = some c)
    (hread : passed s.mRespChunk < passed s.mReqChunk) :
    CopyingFrom old got (put ++ [data]) { s with
      bloom := Function.update s.bloom c data
      mRespChunk := nextChunk c } := by
  rw [h.counted] at hread
  refine ⟨h.toReplaced.setChunk_put hresp, h.returned, ⟨h.ahead.1, ?_⟩, h.queued⟩
  rw [List.length_append, List.length_singleton]
  exact hread

-- When every chunk was put, and no fewer got, no response is left.
theorem drained (h : CopyingFrom old got put s) (hresp : s.mRespChunk = none)
    (hgets : put.length ≤ got.length) :
    got.length = NumBloomChunks ∧ put.length = NumBloomChunks ∧ s.responses.items = [] := by
  have hput : put.length = NumBloomChunks := by rw [← h.counted, hresp, passed_none]
  have hreq : passed s.mReqChunk ≤ NumBloomChunks := passed_le _
  have hgot : got.length = NumBloomChunks := Nat.le_antisymm (h.ahead.1.trans hreq) (hput ▸ hgets)
  have hall : passed s.mReqChunk = NumBloomChunks := Nat.le_antisymm hreq (hgot ▸ h.ahead.1)
  exact ⟨hgot, hput, by rw [h.queued, hgot, hall, window_self]⟩

end CopyingFrom

theorem gets_snoc_none {label : Label} (labels : List Label) (h : label.gotChunk = none) :
    gets (labels ++ [label]) = gets labels := trace_snoc_none _ labels h

theorem puts_snoc_none {label : Label} (labels : List Label) (h : label.putChunk = none) :
    puts (labels ++ [label]) = puts labels := trace_snoc_none _ labels h

theorem GetsFirst.length_le {labels : List Label} (h : GetsFirst labels) :
    (puts labels).length ≤ (gets labels).length :=
  h labels ((List.mem_inits _ _).mpr List.prefix_rfl)

-- Copying, or done.
def CopyTracks (old : BloomMemory) (labels : List Label) (s : Summary) : Prop :=
  (s.state = .Copying ∧ CopyingFrom old (gets labels) (puts labels) s) ∨
    (s.state = .Free ∧ gets labels <+: List.ofFn old)

theorem CopyTracks.step {old : BloomMemory} {labels : List Label} {label : Label} {s t : Summary}
    (h : CopyTracks old labels s) (hstep : CopyStep s label t) (hahead : ReadsAhead s label) :
    CopyTracks old (labels ++ [label]) t := by
  have hcopying : s.state = .Copying := hstep.2
  obtain ⟨-, h⟩ := h.resolve_right fun hfree => by simp [hcopying] at hfree
  cases fires_of_copyStep hstep with
  | requestChunks hreq hq =>
      refine Or.inl ⟨hcopying, ?_⟩
      rw [gets_snoc_none labels rfl, puts_snoc_none labels rfl]
      exact h.requestChunks hreq hq
  | getChunk_get hq =>
      refine Or.inl ⟨hcopying, ?_⟩
      rw [puts_snoc_none labels rfl, gets, trace_snoc_some Label.gotChunk labels rfl]
      exact h.getChunk_get hq
  | setChunk_put hresp =>
      refine Or.inl ⟨hcopying, ?_⟩
      rw [gets_snoc_none labels rfl, puts, trace_snoc_some Label.putChunk labels rfl]
      exact h.setChunk_put hresp (hahead rfl)
  | copyDone hresp =>
      refine Or.inr ⟨rfl, ?_⟩
      rw [gets_snoc_none labels rfl, h.returned]
      exact List.take_prefix _ _

theorem CopyTracks.returned {old : BloomMemory} {labels : List Label} {s : Summary}
    (h : CopyTracks old labels s) : gets labels <+: List.ofFn old := by
  rcases h with ⟨-, h⟩ | ⟨-, h⟩
  · exact h.returned ▸ List.take_prefix _ _
  · exact h

theorem CopyTracks.start {s s' : Summary} {newCount oldCount : BloomObjCount} {u : Undefined}
    (hdrained : s.responses.items = []) (hstart : s.step (.startCopy newCount oldCount u) = some s') :
    CopyTracks s.bloom [] s' := by
  cases fires_of_step hstart with
  | startCopy hstate => exact Or.inl ⟨rfl, CopyingFrom.start hdrained⟩

theorem Replaced.step {old : BloomMemory} {labels : List Label} {label : Label} {s t : Summary}
    (h : Replaced old (puts labels) s) (hstep : CopyStep s label t) :
    Replaced old (puts (labels ++ [label])) t := by
  cases fires_of_copyStep hstep with
  | requestChunks | getChunk_get =>
      rw [puts_snoc_none labels rfl]
      exact ⟨h.counted, h.replaced⟩
  | setChunk_put hresp =>
      rw [puts, trace_snoc_some Label.putChunk labels rfl]
      exact h.setChunk_put hresp
  | copyDone hresp =>
      rw [puts_snoc_none labels rfl]
      exact ⟨by rw [← h.counted, hresp]; rfl, h.replaced⟩

section

variable {s s' t : Summary} {newCount oldCount : BloomObjCount} {u : Undefined} {labels : List Label}

end

end Puppetmaster.Hardware.Summary
