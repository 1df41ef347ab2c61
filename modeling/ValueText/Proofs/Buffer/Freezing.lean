/-
  ValueText.Proofs.Buffer.Freezing — snapshots that cannot change any more.

  A frozen snapshot answers from its origin, from an array or from a text that a
  read has kept.  The three need not agree: a text that was kept before the freezing
  can be of another moment than the array.  What is fixed is one answer for each
  kind of read, whatever reads fill the array and the text in between.

  Main results:

    • `Fixed.read`     a read of a frozen snapshot moves what it keeps, not what it
                       answers;
    • `fixed_run`      no step reaches a frozen snapshot;
    • `frozen_always`  from the step on that makes it or freezes it, all handles of a
                       snapshot answer every read, and always the same.
-/
import ValueText.Proofs.Buffer.Freshness

namespace ValueText

namespace Snapshot

/-! ## §1. The answers of a frozen snapshot. -/

/-- The snapshot is frozen; from now on it answers reads of units by `us`, reads of the
text by `t`, and has the length `n`. -/
structure Fixed (us : List CodeUnit) (t : String) (n : Nat) (s : Snapshot) : Prop where
  frozen : s.isFrozen = true
  length : s.length = n
  array : ∀ seg, s.array = some seg → seg.units = us
  content : s.array = none → ∀ see, s.content see = us
  text : ∀ x, s.text = some x → x = t
  decoded : s.text = none → CodeUnit.decode us = t

variable {see : BuilderId → Published} {s s' : Snapshot} {us : List CodeUnit} {t : String} {n : Nat}

theorem origin_of_isFrozen (h : s.isFrozen = true) :
    (∃ seg, s.origin = .units seg) ∨ ∃ x, s.origin = .text x := by
  unfold isFrozen boundTo? at h
  cases ho : s.origin with
  | bound id v n =>
      rw [ho] at h
      cases h
  | units seg => exact .inl ⟨seg, rfl⟩
  | text x => exact .inr ⟨x, rfl⟩

/-- A frozen snapshot does not look at builders. -/
theorem content_of_isFrozen (h : s.isFrozen = true) (see see' : BuilderId → Published) :
    s.content see = s.content see' := by
  rcases origin_of_isFrozen h with ⟨seg, ho⟩ | ⟨x, ho⟩ <;> simp only [Snapshot.content, ho]

theorem isCurrent_of_isFrozen (h : s.isFrozen = true) (see : BuilderId → Published) :
    s.isCurrent see = true := by
  rcases origin_of_isFrozen h with ⟨seg, ho⟩ | ⟨x, ho⟩ <;> simp only [isCurrent, ho]

theorem fixed_of_isFrozen (h : s.isFrozen = true) : ∃ us t n, s.Fixed us t n := by
  obtain ⟨us, harray, hcontent⟩ : ∃ us, (∀ seg, s.array = some seg → seg.units = us) ∧
      (s.array = none → ∀ see, s.content see = us) := by
    cases ha : s.array with
    | some seg => exact ⟨seg.units, fun seg' he => by cases he; rfl, fun hn => nomatch hn⟩
    | none =>
        refine ⟨s.content fun _ => ⟨.allocate 0, 0, 0⟩, fun seg he => (nomatch he), fun _ see => ?_⟩
        exact content_of_isFrozen h see _
  cases ht : s.text with
  | some t =>
      refine ⟨us, t, s.length, h, rfl, harray, hcontent, fun x hx => ?_, fun hn => ?_⟩
      · rw [ht] at hx
        cases hx
        rfl
      · rw [ht] at hn
        cases hn
  | none =>
      refine ⟨us, CodeUnit.decode us, s.length, h, rfl, harray, hcontent, fun x hx => ?_,
        fun _ => rfl⟩
      rw [ht] at hx
      cases hx

namespace Fixed

theorem with_array {seg : Segment} (h : s.Fixed us t n) (hseg : seg.units = us) :
    Fixed us t n { s with array := some seg } :=
  ⟨h.frozen, h.length, fun seg' he => by cases he; exact hseg, fun hn => (nomatch hn), h.text,
    h.decoded⟩

theorem with_text (h : s.Fixed us t n) : Fixed us t n { s with text := some t } :=
  ⟨h.frozen, h.length, h.array, h.content, fun x hx => by cases hx; rfl, fun hn => nomatch hn⟩

theorem readSegment? (h : s.Fixed us t n) (see : BuilderId → Published) :
    ∃ seg s', s.readSegment? see = some (seg, s') ∧ seg.units = us ∧ s'.Fixed us t n := by
  rw [Snapshot.readSegment?, if_pos (isCurrent_of_isFrozen h.frozen see)]
  cases ha : s.array with
  | some seg => exact ⟨seg, s, rfl, h.array seg ha, h⟩
  | none =>
      -- The units come from the origin, which has the same ones at all times.
      have hunits := h.content ha see
      rcases origin_of_isFrozen h.frozen with ⟨seg, ho⟩ | ⟨x, ho⟩
      · have hseg : seg.units = us := by simpa only [Snapshot.content, ho] using hunits
        exact ⟨seg, { s with array := some seg }, by simp only [ho], hseg, h.with_array hseg⟩
      · have hseg : (Segment.whole (s.content see)).units = us := by
          rw [Segment.units_whole, hunits]
        exact ⟨.whole (s.content see), { s with array := some (.whole (s.content see)) },
          by simp only [ho], hseg, h.with_array hseg⟩

theorem readArray? (h : s.Fixed us t n) (see : BuilderId → Published) :
    ∃ s', s.readArray? see = some (us, s') ∧ s'.Fixed us t n := by
  obtain ⟨seg, s₁, hseg, hunits, h₁⟩ := h.readSegment? see
  rw [Snapshot.readArray?, hseg]
  by_cases hcover : seg.coversArray = true
  · refine ⟨s₁, ?_, h₁⟩
    simp only [hcover, if_true]
    rw [← Segment.units_of_coversArray hcover, hunits]
  · refine ⟨{ s₁ with array := some (.whole seg.units) }, ?_, h₁.with_array ?_⟩
    · simp only [hcover, Bool.false_eq_true, if_false, hunits]
    · rw [Segment.units_whole, hunits]

theorem readText? (h : s.Fixed us t n) (see : BuilderId → Published) :
    ∃ s', s.readText? see = some (t, s') ∧ s'.Fixed us t n := by
  rw [Snapshot.readText?, if_pos (isCurrent_of_isFrozen h.frozen see)]
  cases ht : s.text with
  | some x =>
      have hx := h.text x ht
      subst hx
      exact ⟨s, rfl, h⟩
  | none =>
      -- The text is decoded from the units that reads of units answer.
      have hdecoded := h.decoded ht
      refine ⟨{ s with text := some t }, ?_, h.with_text⟩
      cases ha : s.array with
      | some seg => simp only [h.array seg ha, hdecoded]
      | none =>
          have hunits := h.content ha see
          rcases origin_of_isFrozen h.frozen with ⟨seg, ho⟩ | ⟨x, ho⟩
          · simp only [Snapshot.content, ho] at hunits
            simp only [ho, hunits, hdecoded]
          · simp only [Snapshot.content, ho] at hunits
            rw [← hunits, CodeUnit.decode_encode] at hdecoded
            simp only [ho, hdecoded]

theorem freeze? (h : s.Fixed us t n) (see : BuilderId → Published) : s.freeze? see = some s := by
  rw [Snapshot.freeze?, if_pos h.frozen]

theorem recycle? (h : s.Fixed us t n) (see : BuilderId → Published) : s.recycle? see = none := by
  rcases origin_of_isFrozen h.frozen with ⟨seg, ho⟩ | ⟨x, ho⟩ <;> simp only [Snapshot.recycle?, ho]

/-- **Reads of a frozen snapshot leave its answers as they are.** -/
theorem read (h : s.Fixed us t n) (hr : Read see s s') : s'.Fixed us t n := by
  cases hr with
  | none => exact h
  | segment hr =>
      obtain ⟨seg, s₁, hs₁, -, h₁⟩ := h.readSegment? see
      rw [hr] at hs₁
      cases hs₁
      exact h₁
  | array hr =>
      obtain ⟨s₁, hs₁, h₁⟩ := h.readArray? see
      rw [hr] at hs₁
      cases hs₁
      exact h₁
  | text hr =>
      obtain ⟨s₁, hs₁, h₁⟩ := h.readText? see
      rw [hr] at hs₁
      cases hs₁
      exact h₁
  | freeze hr =>
      rw [h.freeze? see] at hr
      cases hr
      exact h

end Fixed

/-- What freezing leaves is frozen. -/
theorem isFrozen_freeze? (h : s.freeze? see = some s') : s'.isFrozen = true := by
  unfold Snapshot.freeze? at h
  split at h
  · next hf => cases h; exact hf
  · split at h
    · split at h <;> cases h <;> rfl
    · cases h

end Snapshot

namespace Workspace

variable {w w' : Workspace} {sid : SnapshotId} {s : Snapshot} {us : List CodeUnit} {t : String}
  {n : Nat} {name : String} {st : Step} {r : Reply}

/-! ## §2. Frozen snapshots during a session. -/

/-- A step leaves the answers of a frozen snapshot as they are. -/
theorem fixed_after (hs : w.snapshotAt? sid = some s) (h : s.Fixed us t n) (st : Step) :
    ∃ s', (w.after st).snapshotAt? sid = some s' ∧ s'.Fixed us t n := by
  obtain ⟨s', hs', hr⟩ := (turned_after w st).old sid s hs
  refine ⟨s', hs', ?_⟩
  rcases hr with hread | ⟨-, hrec⟩
  · exact h.read hread
  · rw [h.recycle?] at hrec
    cases hrec

theorem fixed_run (later : List Step) (hs : w.snapshotAt? sid = some s) (h : s.Fixed us t n) :
    ∃ s', (w.run later).snapshotAt? sid = some s' ∧ s'.Fixed us t n := by
  induction later generalizing w s with
  | nil => exact ⟨s, hs, h⟩
  | cons st rest ih =>
      obtain ⟨s₁, hs₁, h₁⟩ := fixed_after hs h st
      exact ih hs₁ h₁

theorem readsAs_of_fixed (hs : w.snapshot name = .ok (sid, s)) (h : s.Fixed us t n) :
    ReadsAs w name us t := by
  obtain ⟨seg, s₁, hseg, hunits, -⟩ := h.readSegment? w.see
  obtain ⟨s₂, ht, -⟩ := h.readText? w.see
  exact readsAs_of_current hs hseg hunits ht

theorem snapshot_of_get? (hname : w.snapshotNames.get? name = some sid)
    (hs : w.snapshotAt? sid = some s) : w.snapshot name = .ok (sid, s) := by
  rw [snapshotAt?] at hs
  simp only [snapshot, hname, hs]

/-! ## §3. The steps that freeze. -/

/-- The step, which answers `r`, leaves a frozen snapshot under the name: it makes one of
units, of a text or of a segment, or freezes the one that is there. -/
def Step.Freezes (name : String) (r : Reply) : Step → Prop
  | .ofUnits s _ | .ofText s _ | .ofSegment s .. => s = name
  | .look s .freeze => s = name ∧ r = .flag true
  | _ => False

theorem snapshot_addSnapshotNamed (w : Workspace) (name : String) (s : Snapshot) :
    ∃ sid, (w.addSnapshotNamed name s).snapshot name = .ok (sid, s) := by
  refine ⟨⟨w.snapshots.size⟩, snapshot_of_get? ?_ ?_⟩
  · simp [addSnapshotNamed, addSnapshot, nameSnapshot]
  · simp [snapshotAt?, addSnapshotNamed, addSnapshot, nameSnapshot]

/-- Freezing that is not refused puts the frozen snapshot in the place of the former one. -/
theorem look_freeze_eq (h : w.look sid s .freeze = (.flag true, w')) :
    ∃ s', s.freeze? w.see = some s' ∧ w' = w.setSnapshot sid s' := by
  cases hfreeze : s.freeze? w.see with
  | none =>
      simp only [look, hfreeze] at h
      cases h
  | some s' =>
      simp only [look, hfreeze] at h
      cases h
      exact ⟨s', rfl, rfl⟩

theorem Step.Freezes.snapshot (hf : st.Freezes name r) (h : w.step st = .ok (r, w')) :
    ∃ sid s, w'.snapshot name = .ok (sid, s) ∧ s.isFrozen = true := by
  have hmade {s : Snapshot} (hs : s.isFrozen = true) (hw' : w' = w.addSnapshotNamed name s) :
      ∃ sid s, w'.snapshot name = .ok (sid, s) ∧ s.isFrozen = true := by
    obtain ⟨sid, hsid⟩ := snapshot_addSnapshotNamed w name s
    exact ⟨sid, s, hw' ▸ hsid, hs⟩
  cases st with
  | ofUnits s us =>
      cases hf
      cases h
      exact hmade (s := .ofUnits us) rfl rfl
  | ofText s t =>
      cases hf
      cases h
      exact hmade (s := .ofText t) rfl rfl
  | ofSegment s us start length =>
      cases hf
      simp only [step] at h
      split at h
      · next seg _ =>
          cases h
          exact hmade (s := .ofSegment seg) rfl rfl
      · cases h
  | look s l =>
      cases l with
      | freeze =>
          obtain ⟨rfl, rfl⟩ := hf
          obtain ⟨⟨sid, s₀⟩, hs₀, h⟩ := ok_of_bind h
          obtain ⟨hname, hat⟩ := snapshot_eq_ok hs₀
          obtain ⟨s₁, hfreeze, hw'⟩ := look_freeze_eq (Except.ok.inj h)
          refine ⟨sid, s₁, snapshot_of_get? (by rw [hw']; exact hname) ?_,
            Snapshot.isFrozen_freeze? hfreeze⟩
          rw [hw', snapshotAt?_setSnapshot, if_pos rfl, hat]
          rfl
      | _ => exact absurd hf id
  | _ => exact absurd hf id

/-- **Frozen snapshots answer, and always the same.**  After a step that leaves a frozen
snapshot there are units `us`, a text `t` and a length `n` such that, whatever steps
follow, every read through every name that holds the snapshot then succeeds and shows
these; it stays frozen and is not recycled. -/
theorem frozen_always (h : w.step st = .ok (r, w')) (hf : st.Freezes name r) :
    ∃ sid us t n, w'.snapshotNames.get? name = some sid ∧
      ∀ later handle, (w'.run later).snapshotNames.get? handle = some sid →
        ReadsAs (w'.run later) handle us t ∧
        (w'.run later).step (.look handle .recycle) = .ok (.flag false, w'.run later) ∧
        ∃ s, (w'.run later).snapshot? handle = some s ∧ s.isFrozen = true ∧ s.length = n := by
  obtain ⟨sid, s, hs, hfrozen⟩ := hf.snapshot h
  obtain ⟨hname, hat⟩ := snapshot_eq_ok hs
  obtain ⟨us, t, n, hfixed⟩ := Snapshot.fixed_of_isFrozen hfrozen
  refine ⟨sid, us, t, n, hname, fun later handle hhandle => ?_⟩
  obtain ⟨s', hat', hfixed'⟩ := fixed_run later hat hfixed
  have hfound := snapshot_of_get? hhandle hat'
  refine ⟨readsAs_of_fixed hfound hfixed', ?_, s', ?_, hfixed'.frozen, hfixed'.length⟩
  · rw [step_look hfound]
    simp only [look, hfixed'.recycle?]
  · rw [snapshot?, hfound]
    rfl

/-- A session that keeps the text of a snapshot and changes the content after that, with
length and version as before. -/
def retouched : List Step :=
  [.newBuilder "b" ⟨8, .error⟩, .edit "b" (.text "ab"), .snap "b" "s", .look "s" .text,
   .edit "b" (.set 0 0x78)]

/-- The text that was kept is what the snapshot is frozen to. -/
theorem frozen_always_retouched :
    ∃ w', (run {} retouched).step (.look "s" .freeze) = .ok (.flag true, w') ∧
      ∀ later handle, (w'.run later).snapshotNames.get? handle = some ⟨0⟩ →
        ReadsAs (w'.run later) handle (CodeUnit.encode "ab") "ab" := by
  refine ⟨_, rfl, ?_⟩
  have hfreezes : (Step.look "s" .freeze).Freezes "s" (.flag true) := ⟨rfl, rfl⟩
  obtain ⟨sid, us, t, n, hname, hreads⟩ := frozen_always (w := run {} retouched) rfl hfreezes
  cases hname
  obtain ⟨⟨⟨w₁, h₁⟩, -, ⟨w₂, h₂⟩, -⟩, -⟩ := hreads [] "s" rfl
  cases h₁
  cases h₂
  exact fun later handle hhandle => (hreads later handle hhandle).1

end Workspace
end ValueText
