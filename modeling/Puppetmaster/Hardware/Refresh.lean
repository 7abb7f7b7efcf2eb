import Puppetmaster.Hardware.Summary.Copy

namespace Puppetmaster.Hardware

open Library Library.Transition

-- The refresh of mkPuppetmaster on its two summaries, from startRefresh to switchDone:
-- every rule of a summary, and the rules of mkPuppetmaster that connect them.
structure Refresh where
  main : Summary
  shadow : Summary

namespace Refresh

inductive Label
  | main_requestChunks
  | shadow_requestChunks
  | clearShadow
  | transfer (data : BloomChunkParts)
  | drainMain (data : BloomChunkParts)
  | main_copyDone (u : Undefined)
  | shadow_copyDone (u : Undefined)

-- mkConnection(shadowSummary.getChunk, mainSummary.setChunk) is one rule on both.
def Label.onMain : Label → Option Summary.Label
  | .main_requestChunks => some .requestChunks
  | .transfer data => some (.setChunk_put data)
  | .drainMain data => some (.getChunk_get data)
  | .main_copyDone u => some (.copyDone u)
  | .shadow_requestChunks | .clearShadow | .shadow_copyDone _ => none

def Label.onShadow : Label → Option Summary.Label
  | .shadow_requestChunks => some .requestChunks
  | .clearShadow => some (.setChunk_put fun _ => 0)
  | .transfer data => some (.getChunk_get data)
  | .shadow_copyDone u => some (.copyDone u)
  | .main_requestChunks | .drainMain _ | .main_copyDone _ => none

def startRefresh (r : Refresh) (um us : Undefined) : Option Refresh := do
  let (cnt, shadow) ← r.shadow.startCopy 0 us
  let (_, main) ← r.main.startCopy cnt um
  some ⟨main, shadow⟩

def follow (s : Summary) : Option Summary.Label → Option Summary
  | none => some s
  | some label => s.step label

def step (r : Refresh) (label : Label) : Option Refresh := do
  let main ← follow r.main label.onMain
  let shadow ← follow r.shadow label.onShadow
  some ⟨main, shadow⟩

-- clearShadow replaces a chunk of shadow only after its read was accepted.
abbrev ReadsAhead (r : Refresh) (label : Label) : Prop := ∀ m ∈ label.onShadow, r.shadow.ReadsAhead m

abbrev CopyStep : Refresh → Label → Refresh → Prop := Meeting step ReadsAhead

theorem step_eq_some {r r' : Refresh} {label : Label} :
    r.step label = some r' ↔
      follow r.main label.onMain = some r'.main ∧ follow r.shadow label.onShadow = some r'.shadow := by
  simp only [step, Option.bind_eq_bind, Option.bind_eq_some_iff, Option.some.injEq]
  constructor
  · rintro ⟨main, hmain, shadow, hshadow, rfl⟩
    exact ⟨hmain, hshadow⟩
  · rintro ⟨hmain, hshadow⟩
    exact ⟨_, hmain, _, hshadow, rfl⟩

variable {r e : Refresh} {labels : List Label}

-- Both summaries stay in copy mode until their own copyDone.
def Copies (s : Summary) : Prop := s.state = .Copying ∨ s.state = .Free

theorem Copies.step {s t : Summary} {m : Summary.Label} (h : Copies s) (hstep : s.step m = some t)
    (hm : ∃ label : Label, m ∈ label.onMain ∨ m ∈ label.onShadow) : s.state = .Copying ∧ Copies t := by
  have hcopying (hne : s.state ≠ .Free) : s.state = .Copying := h.resolve_right hne
  cases Summary.fires_of_step hstep with
  | requestChunks hreq hstate hq => exact ⟨hcopying hstate, .inl (hcopying hstate)⟩
  | getChunk_get hstate hq => exact ⟨hstate, .inl hstate⟩
  | setChunk_put hresp hstate => exact ⟨hstate, .inl hstate⟩
  | copyDone hresp hstate => exact ⟨hstate, .inr rfl⟩
  | _ =>
      obtain ⟨label, hlabel⟩ := hm
      cases label <;> simp [Label.onMain, Label.onShadow] at hlabel

theorem Copies.follow {s t : Summary} {m : Option Summary.Label} (h : Copies s)
    (hstep : follow s m = some t) (hm : ∃ label : Label, m = label.onMain ∨ m = label.onShadow) :
    (∀ m' ∈ m, s.state = .Copying) ∧ Copies t := by
  cases m with
  | none =>
      obtain rfl := Option.some.inj hstep
      exact ⟨fun _ hm' => (by cases hm'), h⟩
  | some m' =>
      obtain ⟨label, hlabel⟩ := hm
      obtain ⟨hcopying, ht⟩ := h.step hstep ⟨label, hlabel.imp Eq.symm Eq.symm⟩
      exact ⟨fun _ _ => hcopying, ht⟩

def undefinedZero : Undefined where
  txn := ⟨0, 0, fun _ => none, fun _ => none⟩
  compat := CheckResult.zero

def filled (word : BloomChunk) : BloomChunkParts := fun _ => word

end Refresh

end Puppetmaster.Hardware
