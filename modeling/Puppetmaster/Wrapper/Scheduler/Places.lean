import Puppetmaster.Wrapper.Scheduler.Serializable

namespace Puppetmaster.Wrapper.Scheduler

open Library Library.Transition

variable {cfg : Config} {s t : Scheduler} {labels : List Label} {jobs : ℕ → Job} {handles : ℕ → Handle}

theorem entered_take {log : List LogCall} {p : ℕ} {call : LogCall} (h : log[p]? = some call) :
    Entered call.kind (log.take (p + 1)) call.handle.serial := by
  refine ⟨call, ?_, rfl, rfl⟩
  rw [List.take_add_one, h]
  exact List.mem_append_right _ List.mem_cons_self

theorem place_of_entered {log : List LogCall} {kind : PmlogKind} {n q : ℕ}
    (h : Entered kind (log.take q) n) :
    ∃ p < q, ∃ call, log[p]? = some call ∧ call.handle.serial = n ∧ call.kind = kind := by
  obtain ⟨call, hcall, hboth⟩ := h
  obtain ⟨p, hp, hget⟩ := List.mem_take_iff_getElem.mp hcall
  refine ⟨p, by omega, call, ?_, hboth⟩
  rw [← hget]
  exact List.getElem?_eq_getElem _

theorem not_entered_before (hrun : Run (Of (Scheduler.step cfg)) (init jobs handles) labels s)
    {q : ℕ} {call : LogCall} (hq : s.log[q]? = some call) :
    ¬ Entered call.kind (s.log.take q) call.handle.serial := by
  obtain ⟨earlier, middle, -, hmiddle, hlog⟩ := earlier_of_prefix hrun (List.take_prefix (q + 1) s.log)
  have hpre : middle.logged call.handle.serial <+: stages :=
    Staged.history_prefix (Logged.run hmiddle) _
  have hnodup : (middle.logged call.handle.serial).Nodup :=
    hpre.sublist.nodup (by decide)
  have hsnoc := history_snoc_self (Handle.serial ∘ LogCall.handle) LogCall.kind (s.log.take q) call
  rw [logged, hlog, List.take_add_one, hq, Option.toList_some] at hnodup
  intro hentered
  obtain ⟨other, hother, hserial, hkind⟩ := hentered
  have hmem : call.kind ∈ history (Handle.serial ∘ LogCall.handle) LogCall.kind (s.log.take q)
      call.handle.serial := by
    simp only [history, List.mem_map, List.mem_filter, Function.comp_apply, decide_eq_true_eq]
    exact ⟨other, ⟨hother, hserial⟩, hkind⟩
  have hlast : history (Handle.serial ∘ LogCall.handle) LogCall.kind (s.log.take q ++ [call])
      call.handle.serial = _ := hsnoc
  rw [hlast, List.nodup_append] at hnodup
  exact hnodup.2.2 _ hmem _ List.mem_cons_self rfl

-- Every transaction has at most one entry of a kind.
theorem place_inj (hrun : Run (Of (Scheduler.step cfg)) (init jobs handles) labels s) {p q : ℕ}
    {a b : LogCall} (hp : s.log[p]? = some a) (hq : s.log[q]? = some b)
    (hserial : a.handle.serial = b.handle.serial) (hkind : a.kind = b.kind) : p = q := by
  have hbefore : ∀ {p q : ℕ} {a b : LogCall}, s.log[p]? = some a → s.log[q]? = some b →
      a.handle.serial = b.handle.serial → a.kind = b.kind → ¬ p < q := by
    intro p q a b hp hq hserial hkind hlt
    refine not_entered_before hrun hq ?_
    rw [← hserial, ← hkind]
    refine (entered_take hp).mono ?_
    rw [List.prefix_take_iff]
    exact ⟨List.take_prefix _ _, by rw [List.length_take]; omega⟩
  have hpq := hbefore hp hq hserial hkind
  have hqp := hbefore hq hp hserial.symm hkind.symm
  omega

-- The entries of a transaction stand in the order of their kinds.
theorem place_le (hrun : Run (Of (Scheduler.step cfg)) (init jobs handles) labels s) {p q m n : ℕ}
    {a b : LogCall} (hp : s.log[p]? = some a) (hq : s.log[q]? = some b)
    (hserial : a.handle.serial = b.handle.serial) (hmn : m ≤ n) (hm : stages[m]? = some a.kind)
    (hn : stages[n]? = some b.kind) : p ≤ q := by
  have hentered := entered_of_entered hrun hmn hm hn (List.take_prefix _ _) (entered_take hq)
  obtain ⟨r, hr, c, hc, hserial', hkind⟩ := place_of_entered hentered
  have hsame := place_inj hrun hc hp (hserial'.trans hserial.symm) hkind
  omega

-- A transaction is scheduled behind the last entry of each earlier one that it conflicts with.
theorem place_lt_of_conflicting (hrun : Run (Of (Scheduler.step cfg)) (init jobs handles) labels s)
    {p q : ℕ} {a b : LogCall} (hp : s.log[p]? = some a) (hq : s.log[q]? = some b)
    (hlt : a.handle.serial < b.handle.serial)
    (hconflict : Conflicting (submissions labels) a.handle.serial b.handle.serial)
    (hready : b.kind = .SCHED_READY) : p < q := by
  have hentered := cleaned_before_ready hrun hlt hconflict (List.take_prefix (q + 1) s.log)
    (hready ▸ entered_take hq)
  obtain ⟨r, hr, c, hc, hserial, hkind⟩ := place_of_entered hentered
  obtain ⟨m, hm, hstage⟩ := stage_of_kind a.kind
  have hle := place_le hrun hp hc hserial.symm hm hstage (by rw [hkind]; rfl)
  have hne : r ≠ q := by
    rintro rfl
    rw [hq, Option.some.injEq] at hc
    exact absurd (hserial ▸ congrArg (fun c => c.handle.serial) hc) (Nat.ne_of_gt hlt)
  omega

-- The handle of an entry is that of the transaction submitted under its number.
theorem submit_handle (hrun : Run (Of (Scheduler.step cfg)) (init jobs handles) labels s) :
    s.submitted = (submissions labels).length ∧ ∀ call ∈ s.log, call.kind = .SUBMIT →
      ∃ txn ∈ numbered (submissions labels), call.handle = txn.handle := by
  refine hrun.history (fun labels s => s.submitted = (submissions labels).length ∧
    ∀ call ∈ s.log, call.kind = .SUBMIT →
      ∃ txn ∈ numbered (submissions labels), call.handle = txn.handle)
    ⟨rfl, fun call hcall => absurd hcall List.not_mem_nil⟩ ?_
  intro labels s label t h hstep
  obtain ⟨hsubmitted, hlog⟩ := h
  rw [submissions_snoc]
  cases fires_of_step hstep with
  | @submit client txn hidle =>
      rw [Label.submission, Option.toList_some, numbered_snoc]
      refine ⟨by simp [hsubmitted], fun call hcall hkind => ?_⟩
      simp only [pmlog_record, List.mem_append, List.mem_singleton] at hcall
      rcases hcall with hcall | rfl
      · obtain ⟨txn, htxn, hhandle⟩ := hlog call hcall hkind
        exact ⟨txn, List.mem_append_left _ htxn, hhandle⟩
      · exact ⟨_, List.mem_append_right _ List.mem_cons_self, by rw [hsubmitted]; rfl⟩
  | logCleanup | logReady | logRecv | logDone =>
      simp only [Label.submission, Option.toList_none, List.append_nil]
      refine ⟨hsubmitted, fun call hcall hkind => ?_⟩
      simp only [pmlog_record, List.mem_append, List.mem_singleton] at hcall
      rcases hcall with hcall | rfl
      · exact hlog call hcall hkind
      · cases hkind
  | _ =>
      simp only [Label.submission, Option.toList_none, List.append_nil]
      exact ⟨hsubmitted, hlog⟩

theorem handle_eq (hrun : Run (Of (Scheduler.step cfg)) (init jobs handles) labels s) {p : ℕ}
    {call : LogCall} (hp : s.log[p]? = some call) :
    ∃ txn, (submissions labels)[call.handle.serial]? = some txn ∧ call.handle.id = txn.id := by
  obtain ⟨m, -, hstage⟩ := stage_of_kind call.kind
  obtain ⟨first, hfirst, hserial, hkind⟩ := entered_of_entered (m := 0) hrun (Nat.zero_le m) rfl hstage
    (List.take_prefix _ _) (entered_take hp)
  have hfirst := List.mem_of_mem_take hfirst
  obtain ⟨txn, htxn, hhandle⟩ := (submit_handle hrun).2 first hfirst hkind
  have hsame : first.handle = call.handle :=
    Staged.key_eq (Logged.run hrun) hfirst (List.mem_of_getElem? hp) hserial
  obtain ⟨n, hn⟩ := List.getElem?_of_mem htxn
  obtain ⟨rfl, htxn⟩ := getElem?_numbered.mp hn
  refine ⟨txn.txn, ?_, ?_⟩
  · rw [← hsame, hhandle]
    exact htxn
  · rw [← hsame, hhandle]
    rfl

end Puppetmaster.Wrapper.Scheduler
