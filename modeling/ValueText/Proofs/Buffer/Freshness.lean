/-
  ValueText.Proofs.Buffer.Freshness — whether snapshots show what they were taken of.

  A snapshot tells that its builder changed by the builder's version and length.
  Truncating, storing a unit and the null termination of a full builder change the
  content without moving the version, so that the length can come back with
  other content.  A snapshot then passes for current, and what it shows is content
  of another moment: the moment at which what it shows was read.

  Main results:

    • `moments_agree`   at two moments of one version and one length the content is
                        the same, unless an edit of that version damaged it;
    • `fresh_snapshot`  what a snapshot shows as soon as it was taken;
    • `held_snapshot`   what it shows as long as it is held.

  Each of the two comes with a run in which the content shown is another one.
-/
import Mathlib.Data.List.Induction
import ValueText.Proofs.Buffer.Reading

namespace ValueText

namespace Workspace

variable {w w' : Workspace} {id : BuilderId} {v : UInt64} {n : Nat} {b b₁ b₂ : Builder}
  {steps later : List Step}

/-! ## §1. Moments of a session. -/

/-- The builder was `b` at some moment of the session. -/
def Moment (steps : List Step) (id : BuilderId) (b : Builder) : Prop :=
  ∃ before rest, steps = before ++ rest ∧ (run {} before).builderAt? id = some b

/-- At some moment of the session the builder had version `v`, length `n` and the
content `us`. -/
def WasContent (steps : List Step) (id : BuilderId) (v : UInt64) (n : Nat)
    (us : List CodeUnit) : Prop :=
  ∃ b, Moment steps id b ∧ b.version = v ∧ b.length = n ∧ b.units = us

theorem moment_now (hb : (run {} steps).builderAt? id = some b) : Moment steps id b :=
  ⟨steps, [], by simp, hb⟩

theorem Moment.append (h : Moment steps id b) (later : List Step) :
    Moment (steps ++ later) id b := by
  obtain ⟨before, rest, rfl, hb⟩ := h
  exact ⟨before, rest ++ later, by simp, hb⟩

theorem WasContent.append {us : List CodeUnit} (h : WasContent steps id v n us)
    (later : List Step) : WasContent (steps ++ later) id v n us := by
  obtain ⟨b, hm, hb⟩ := h
  exact ⟨b, hm.append later, hb⟩

theorem wasContent_now (hb : (run {} steps).builderAt? id = some b) :
    WasContent steps id b.version b.length b.units :=
  ⟨b, moment_now hb, rfl, rfl, rfl⟩

/-- The earlier of two moments, and what was done until the later one. -/
theorem units_eq_of_run {before mid rest : List Step}
    (hb₁ : (run {} before).builderAt? id = some b₁)
    (hb₂ : (run {} (before ++ mid)).builderAt? id = some b₂)
    (hv : b₂.version = b₁.version) (hl : b₂.length = b₁.length)
    (hc : clears id {} (before ++ mid ++ rest) < 2 ^ 64)
    (hu : Undamaged id b₁.version b₁.length {} (before ++ mid ++ rest)) : b₂.units = b₁.units := by
  rw [run_append] at hb₂
  rw [clears_append, clears_append] at hc
  have hk := keeps_run (consistent_run before) hb₁ hb₂ hv (Nat.le_refl _) (by omega) hu.left.right
  exact hk.units_eq hl

/-- **Moments of one version and one length agree**, unless an edit damaged the
content in between. -/
theorem moments_agree (h₁ : Moment steps id b₁) (h₂ : Moment steps id b₂)
    (hv : b₂.version = b₁.version) (hl : b₂.length = b₁.length)
    (hc : clears id {} steps < 2 ^ 64) (hu : Undamaged id b₁.version b₁.length {} steps) :
    b₂.units = b₁.units := by
  obtain ⟨before₁, rest₁, rfl, hb₁⟩ := h₁
  obtain ⟨before₂, rest₂, he, hb₂⟩ := h₂
  -- One of the two moments comes first.
  rcases List.append_eq_append_iff.mp he with ⟨mid, hmid, hrest⟩ | ⟨mid, hmid, hrest⟩
  · subst hmid
    subst hrest
    rw [← List.append_assoc] at hc hu
    exact units_eq_of_run hb₁ hb₂ hv hl hc hu
  · subst hmid
    rw [← hv, ← hl] at hu
    exact (units_eq_of_run hb₂ hb₁ hv.symm hl.symm hc hu).symm

/-- Content of the version and the length of a moment is that of the moment. -/
theorem WasContent.eq_units {us : List CodeUnit} (h : WasContent steps id b.version b.length us)
    (hb : Moment steps id b) (hc : clears id {} steps < 2 ^ 64)
    (hu : Undamaged id b.version b.length {} steps) : us = b.units := by
  obtain ⟨b', hb', hv, hl, rfl⟩ := h
  exact moments_agree hb hb' hv hl hc hu

/-! ## §2. What the snapshots of a session have kept. -/

/-- Each bound snapshot has kept content of its builder only, and each builder has
kept a snapshot that is bound to it, if to any builder. -/
structure Faithful (K : BuilderId → UInt64 → Nat → List CodeUnit → Prop) (w : Workspace) :
    Prop where
  shows : ∀ sid s id v n, w.snapshotAt? sid = some s → s.origin = .bound id v n →
    (∃ b, w.builderAt? id = some b) ∧ s.Shows id v n (K id v n)
  cached : ∀ id sid, w.cachedAt? id = some sid →
    ∃ s, w.snapshotAt? sid = some s ∧ ∀ id', s.boundTo? = some id' → id' = id

variable {K L : BuilderId → UInt64 → Nat → List CodeUnit → Prop}

theorem Faithful.mono (h : Faithful K w) (hK : ∀ id v n u, K id v n u → L id v n u) :
    Faithful L w := by
  refine ⟨fun sid s id v n hs ho => ?_, h.cached⟩
  obtain ⟨hb, hshows⟩ := h.shows sid s id v n hs ho
  exact ⟨hb, hshows.mono (hK id v n)⟩

/-- `K` knows the present content of every builder. -/
def Knows (K : BuilderId → UInt64 → Nat → List CodeUnit → Prop) (w : Workspace) : Prop :=
  ∀ id b, w.builderAt? id = some b → K id b.version b.length b.units

theorem knows_run (steps : List Step) : Knows (WasContent steps) (run {} steps) :=
  fun _ _ hb => wasContent_now hb

theorem Knows.sees (h : Knows K w) (hw : w.Consistent) (hb : w.builderAt? id = some b)
    (v : UInt64) (n : Nat) : Snapshot.Sees w.see id v n (K id v n) := by
  intro hv hl
  rw [see_of_builderAt? hb] at hv hl ⊢
  have hc := hw id b hb
  have hv' : b.version = v := hc.version.symm.trans hv
  have hl' : b.length = n := hc.length.symm.trans hl
  subst hv'
  subst hl'
  exact h id b hb

/-- A snapshot that was recycled is bound to the builder it was bound to. -/
theorem recycle?_eq_some {see : BuilderId → Published} {s s' : Snapshot}
    (h : s.recycle? see = some s') : ∃ id v n, s.origin = .bound id v n ∧
      (s' = s ∧ (see id).version = v ∧ (see id).length = n ∨
        s' = ⟨.bound id (see id).version (see id).length, none, none⟩) := by
  unfold Snapshot.recycle? at h
  split at h
  · next id v n ho =>
      refine ⟨id, v, n, ho, ?_⟩
      simp only at h
      split at h
      · next hc =>
          simp only [Bool.and_eq_true, decide_eq_true_eq] at hc
          cases h
          exact .inl ⟨rfl, hc⟩
      · cases h
        exact .inr rfl
  · cases h
  · cases h

theorem boundTo?_recycle? {see : BuilderId → Published} {s s' : Snapshot}
    (h : s.recycle? see = some s') : s'.boundTo? = s.boundTo? := by
  obtain ⟨id, v, n, ho, hs'⟩ := recycle?_eq_some h
  rcases hs' with ⟨rfl, -⟩ | rfl
  · rfl
  · rw [Snapshot.boundTo?, Snapshot.boundTo?, ho]

theorem builderAt?_persists {s : Step} (h : ∃ b, w.builderAt? id = some b) :
    ∃ b, (w.after s).builderAt? id = some b := by
  obtain ⟨b, hb⟩ := h
  obtain ⟨b', hb', -⟩ := builderAt?_after s hb
  exact ⟨b', hb'⟩

/-- A snapshot that existed before the step shows what `K` knows after it, too. -/
theorem Faithful.shows_after {s : Step} {sid : SnapshotId} {s₀ s₁ : Snapshot} (h : Faithful K w)
    (hw : w.Consistent) (hk : Knows K w) (hs₀ : w.snapshotAt? sid = some s₀)
    (hr : Snapshot.Read w.see s₀ s₁ ∨ s.mayRecycle w sid ∧ s₀.recycle? w.see = some s₁)
    (ho : s₁.origin = .bound id v n) :
    (∃ b, w.builderAt? id = some b) ∧ s₁.Shows id v n (K id v n) := by
  rcases hr with hr | ⟨-, hr⟩
  · rcases hr.origin with he | hn
    · obtain ⟨⟨b, hb⟩, hshows⟩ := h.shows sid s₀ id v n hs₀ (he.symm.trans ho)
      exact ⟨⟨b, hb⟩, hshows.read (hk.sees hw hb v n) hr⟩
    · rw [Snapshot.boundTo?, ho] at hn
      cases hn
  · obtain ⟨id', v', n', ho', hs'⟩ := recycle?_eq_some hr
    obtain ⟨hb, hshows⟩ := h.shows sid s₀ id' v' n' hs₀ ho'
    rcases hs' with ⟨rfl, -⟩ | rfl
    · rw [ho] at ho'
      cases ho'
      exact ⟨hb, hshows⟩
    · -- It was bound anew, and has kept nothing.
      cases ho
      exact ⟨hb, .unread rfl rfl rfl⟩

theorem Faithful.after (h : Faithful K w) (hw : w.Consistent) (hk : Knows K w) (s : Step) :
    Faithful K (w.after s) := by
  have ht := turned_after w s
  refine ⟨?_, ?_⟩
  · intro sid s₁ id v n hs₁ ho
    cases hs₀ : w.snapshotAt? sid with
    | some s₀ =>
        obtain ⟨s', hs', hr⟩ := ht.old sid s₀ hs₀
        rw [hs₁] at hs'
        cases hs'
        obtain ⟨hb, hshows⟩ := h.shows_after hw hk hs₀ hr ho
        exact ⟨builderAt?_persists hb, hshows⟩
    | none =>
        obtain ⟨harray, htext, hbound⟩ := ht.new sid s₁ hs₀ hs₁
        obtain ⟨b, hb, -, -⟩ := hbound id v n ho
        exact ⟨builderAt?_persists ⟨b, hb⟩, .unread ho harray htext⟩
  · -- What a builder has kept was kept before, or was just bound to it.
    intro id sid hc
    rcases ht.cached id with he | hn | ⟨sid', s', hc', -, hs', hb⟩
    · rw [he] at hc
      obtain ⟨s₀, hs₀, hb₀⟩ := h.cached id sid hc
      obtain ⟨s₁, hs₁, hr⟩ := ht.old sid s₀ hs₀
      refine ⟨s₁, hs₁, fun id' hid' => hb₀ id' ?_⟩
      rcases hr with hr | ⟨-, hr⟩
      · rcases hr.origin with he | hn
        · rw [← hid', Snapshot.boundTo?, Snapshot.boundTo?, he]
        · rw [hn] at hid'
          cases hid'
      · rw [← hid', boundTo?_recycle? hr]
    · rw [hn] at hc
      cases hc
    · rw [hc] at hc'
      cases hc'
      refine ⟨s', hs', fun id' hid' => ?_⟩
      rw [hb] at hid'
      cases hid'
      rfl

/-- **In a session every snapshot has kept content of some moment.** -/
theorem faithful_run (steps : List Step) : Faithful (WasContent steps) (run {} steps) := by
  induction steps using List.reverseRecOn with
  | nil =>
      refine ⟨?_, ?_⟩
      · intro sid s id v n hs
        simp [snapshotAt?] at hs
      · intro id sid hc
        simp [cachedAt?] at hc
  | append_singleton steps s ih =>
      have hafter := ih.after (consistent_run steps) (knows_run steps) s
      rw [run_snoc]
      exact hafter.mono fun _ _ _ _ hu => hu.append [s]

/-! ## §3. Reads as steps. -/

/-- Each read of the named snapshot succeeds: it shows the units `us`, or the text `t`. -/
structure ReadsAs (w : Workspace) (name : String) (us : List CodeUnit) (t : String) : Prop where
  array : ∃ w', w.step (.look name .array) = .ok (.units us, w')
  segment : ∃ seg w', w.step (.look name .segment) = .ok (.segment seg, w') ∧ seg.units = us
  text : ∃ w', w.step (.look name .text) = .ok (.text t, w')
  display : ∃ w', w.step (.look name .display) = .ok (.text t, w')
  append : ∀ c id tenant, w.builder c = .ok (id, tenant) →
    ∃ w', w.step (.edit c (.snapshot name)) =
        .ok (.ofAppend (tenant.builder.appendUnits us).1, w') ∧
      w'.builderAt? id = some (tenant.builder.appendUnits us).2

/-- Each read of the named snapshot, and freezing it, is refused as stale. -/
structure Refuses (w : Workspace) (name : String) : Prop where
  look : ∀ l, l ≠ .recycle → w.step (.look name l) = .ok (.stale, w)
  append : ∀ c id tenant, w.builder c = .ok (id, tenant) →
    w.step (.edit c (.snapshot name)) = .ok (.stale, w)

section Reads

variable {name : String} {sid : SnapshotId} {s : Snapshot}

theorem step_look (h : w.snapshot name = .ok (sid, s)) (l : Look) :
    w.step (.look name l) = .ok (w.look sid s l) := by
  simp only [step, bind, Except.bind, h]

theorem step_append_stale {c : String} {id : BuilderId} {tenant : Tenant}
    (h : w.snapshot name = .ok (sid, s)) (hc : w.builder c = .ok (id, tenant))
    (hseg : s.readSegment? w.see = none) :
    w.step (.edit c (.snapshot name)) = .ok (.stale, w) := by
  simp only [step, edit, bind, Except.bind, h, hc, hseg]

theorem step_append {c : String} {id : BuilderId} {tenant : Tenant} {seg : Segment}
    {s' : Snapshot} (h : w.snapshot name = .ok (sid, s)) (hc : w.builder c = .ok (id, tenant))
    (hseg : s.readSegment? w.see = some (seg, s')) :
    w.step (.edit c (.snapshot name)) = .ok (.ofAppend (tenant.builder.appendUnits seg.units).1,
      (w.setSnapshot sid s').setBuilder id (tenant.builder.appendUnits seg.units).2) := by
  simp only [step, edit, bind, Except.bind, h, hc, hseg]

theorem refuses_of_not_current (h : w.snapshot name = .ok (sid, s))
    (hc : s.isCurrent w.see = false) : Refuses w name := by
  have hfrozen : s.isFrozen = false := by
    unfold Snapshot.isCurrent at hc
    unfold Snapshot.isFrozen Snapshot.boundTo?
    cases ho : s.origin with
    | bound id v n => rfl
    | units seg => rw [ho] at hc; cases hc
    | text t => rw [ho] at hc; cases hc
  have hseg : s.readSegment? w.see = none := by
    rw [Snapshot.readSegment?, hc]
    rfl
  refine ⟨?_, ?_⟩
  · intro l hl
    rw [step_look h]
    cases l with
    | text | display => simp [look, Snapshot.readText?, hc]
    | array => simp [look, Snapshot.readArray?, hseg]
    | segment => simp [look, hseg]
    | freeze => simp [look, Snapshot.freeze?, hc, hfrozen]
    | recycle => exact absurd rfl hl
  · intro c id tenant htenant
    exact step_append_stale h htenant hseg

theorem readsAs_of_current {us : List CodeUnit} {t : String} {seg : Segment} {s₁ s₂ : Snapshot}
    (h : w.snapshot name = .ok (sid, s)) (hseg : s.readSegment? w.see = some (seg, s₁))
    (hus : seg.units = us) (ht : s.readText? w.see = some (t, s₂)) : ReadsAs w name us t := by
  refine ⟨?_, ?_, ?_, ?_, ?_⟩
  · rw [step_look h]
    simp only [look, Snapshot.readArray?, hseg]
    -- The array is the segment, or a copy of its units.
    split
    · next us' s' he =>
        split at he
        · next hcover =>
            cases he
            rw [← Segment.units_of_coversArray hcover, hus]
            exact ⟨_, rfl⟩
        · cases he
          rw [hus]
          exact ⟨_, rfl⟩
    · next he => split at he <;> cases he
  · rw [step_look h]
    simp only [look, hseg]
    exact ⟨seg, _, rfl, hus⟩
  · rw [step_look h]
    simp only [look, ht]
    exact ⟨_, rfl⟩
  · rw [step_look h]
    simp only [look, ht]
    exact ⟨_, rfl⟩
  · intro c id tenant hc
    rw [step_append h hc hseg, hus]
    refine ⟨_, rfl, ?_⟩
    have hb : (w.setSnapshot sid s₁).builderAt? id = some tenant.builder :=
      builderAt?_of_tenant (builder_eq_ok hc).2
    rw [builderAt?_setBuilder, if_pos rfl, hb]
    rfl

/-- A snapshot shows one content only. -/
theorem ReadsAs.unique {us us' : List CodeUnit} {t t' : String} (h : ReadsAs w name us t)
    (h' : ReadsAs w name us' t') : us' = us ∧ t' = t := by
  obtain ⟨w₁, h₁⟩ := h.array
  obtain ⟨w₂, h₂⟩ := h'.array
  obtain ⟨w₃, h₃⟩ := h.text
  obtain ⟨w₄, h₄⟩ := h'.text
  rw [h₁] at h₂
  rw [h₃] at h₄
  cases h₂
  cases h₄
  exact ⟨rfl, rfl⟩

/-- **A snapshot that is not refused shows content that `K` knows.** -/
theorem readsAs_of_shows {K : List CodeUnit → Prop} (h : w.snapshot name = .ok (sid, s))
    (hshows : s.Shows id v n K) (hs : Snapshot.Sees w.see id v n K)
    (hc : s.isCurrent w.see = true) :
    ∃ us ut, ReadsAs w name (s.unitsOf us) (CodeUnit.decode ut) ∧ K us ∧ K ut := by
  obtain ⟨seg, s₁, hseg⟩ : ∃ seg s₁, s.readSegment? w.see = some (seg, s₁) := by
    rw [Snapshot.readSegment?, if_pos hc]
    split
    · exact ⟨_, _, rfl⟩
    · exact ⟨_, _, rfl⟩
  obtain ⟨t, s₂, ht⟩ : ∃ t s₂, s.readText? w.see = some (t, s₂) := by
    rw [Snapshot.readText?, if_pos hc]
    split
    · exact ⟨_, _, rfl⟩
    · exact ⟨_, _, rfl⟩
  obtain ⟨-, us, hus, heu⟩ := hshows.readSegment? hs hseg
  obtain ⟨-, ut, hut, rfl⟩ := hshows.readText? hs ht
  exact ⟨us, ut, readsAs_of_current h hseg heu ht, hus, hut⟩

/-- A bound snapshot shows the present content exactly if what it has kept is that. -/
theorem readsAs_content_iff (h : w.snapshot name = .ok (sid, s))
    (hc : s.isCurrent w.see = true) (ho : s.origin = .bound id v n) {us : List CodeUnit}
    (hus : s.content w.see = us) :
    ReadsAs w name us (CodeUnit.decode us) ↔
      (∀ seg, s.array = some seg → seg.units = us) ∧
        ∀ t, s.text = some t → t = CodeUnit.decode us := by
  constructor
  · intro hr
    refine ⟨fun seg hseg => ?_, fun t ht => ?_⟩
    · obtain ⟨seg', w', hstep, hunits⟩ := hr.segment
      rw [step_look h] at hstep
      simp only [look, Snapshot.readSegment?, hc, hseg, if_pos] at hstep
      cases hstep
      exact hunits
    · obtain ⟨w', hstep⟩ := hr.text
      rw [step_look h] at hstep
      simp only [look, Snapshot.readText?, hc, ht, if_pos] at hstep
      cases hstep
      rfl
  · -- What is kept is shown, and what is not is read from the memory.
    rintro ⟨harray, htext⟩
    obtain ⟨seg, s₁, hseg, hunits⟩ :
        ∃ seg s₁, s.readSegment? w.see = some (seg, s₁) ∧ seg.units = us := by
      rw [Snapshot.readSegment?, if_pos hc]
      cases ha : s.array with
      | some seg => exact ⟨seg, s, rfl, harray seg ha⟩
      | none =>
          refine ⟨_, _, rfl, ?_⟩
          rw [ho]
          exact (Segment.units_whole _).trans hus
    obtain ⟨s₂, ht⟩ : ∃ s₂, s.readText? w.see = some (CodeUnit.decode us, s₂) := by
      rw [Snapshot.readText?, if_pos hc]
      cases ht : s.text with
      | some t => exact ⟨s, by rw [htext t ht]⟩
      | none =>
          cases ha : s.array with
          | some seg => exact ⟨{ s with text := some (CodeUnit.decode us) }, by simp [ha, harray seg ha]⟩
          | none => exact ⟨{ s with text := some (CodeUnit.decode us) }, by simp [ha, ho, hus]⟩
    exact readsAs_of_current h hseg hunits ht

end Reads

/-! ## §4. Fresh snapshots. -/

theorem snapshotAt?_takeSnapshot {t : Tenant} (hf : Faithful K w) (hw : w.Consistent)
    (ht : w.tenants[id.index]? = some t) :
    ∃ s, (w.takeSnapshot id t).2.snapshotAt? (w.takeSnapshot id t).1 = some s ∧
      s.origin = .bound id t.builder.version t.builder.length := by
  have hb := builderAt?_of_tenant ht
  have hsee := see_of_builderAt? hb
  have hc := hw id _ hb
  unfold takeSnapshot
  split
  · next sid s hr =>
      obtain ⟨hcached, -, s₀, hs₀, hrec⟩ := reusable?_eq_some hr
      refine ⟨s, by rw [snapshotAt?_setSnapshot, if_pos rfl, hs₀]; rfl, ?_⟩
      -- The snapshot that a builder keeps is bound to it, if it is bound.
      obtain ⟨s₁, hs₁, hbound⟩ := hf.cached id sid (by rw [cachedAt?, ht]; exact hcached)
      rw [hs₀] at hs₁
      cases hs₁
      obtain ⟨id', v, n, ho, hs⟩ := recycle?_eq_some hrec
      have hid : id' = id := hbound id' (by rw [Snapshot.boundTo?, ho])
      subst hid
      rw [hsee, hc.version, hc.length] at hs
      rcases hs with ⟨rfl, hv, hl⟩ | rfl
      · rw [ho, hv, hl]
      · rfl
  · exact ⟨.bind id t.builder, by simp [snapshotAt?, addSnapshot], rfl⟩

theorem step_snap {name keep : String} {t : Tenant} (h : w.builder name = .ok (id, t)) :
    w.step (.snap name keep) =
      .ok (.done, (w.takeSnapshot id t).2.nameSnapshot keep (w.takeSnapshot id t).1) := by
  simp only [step, bind, Except.bind, h]

/-- The snapshot as it is found under its name right after it was taken. -/
theorem snapshot_snap {name keep : String} {t : Tenant} (hf : Faithful K w)
    (hw : w.Consistent) (h : w.builder name = .ok (id, t))
    (hstep : w.step (.snap name keep) = .ok (.done, w')) :
    (∃ sid s, w'.snapshot keep = .ok (sid, s) ∧
      s.origin = .bound id t.builder.version t.builder.length) ∧
    ∀ id', w'.builderAt? id' = w.builderAt? id' := by
  rw [step_snap h] at hstep
  cases hstep
  obtain ⟨s, hs, ho⟩ := snapshotAt?_takeSnapshot hf hw (builder_eq_ok h).2
  refine ⟨⟨(w.takeSnapshot id t).1, s, ?_, ho⟩, fun id' => builderAt?_takeSnapshot w id id' t⟩
  have hs' : (w.takeSnapshot id t).2.snapshots[(w.takeSnapshot id t).1.index]? = some s := hs
  simp only [snapshot, nameSnapshot, Table.get?_set, if_pos, hs']

theorem Knows.of_eq (h : Knows K w) (hb : ∀ id, w'.builderAt? id = w.builderAt? id) :
    Knows K w' := by
  intro id b hb'
  rw [hb] at hb'
  exact h id b hb'

/-- **What a fresh snapshot shows.**  Every read of it succeeds and shows content that
the builder had, at its present version and length, when the snapshot read it last.
That is the present content exactly if what the snapshot has kept is; and it has kept
nothing else as long as no edit of the present version damaged the content. -/
theorem fresh_snapshot (steps : List Step) (name keep : String) (id : BuilderId) (t : Tenant)
    (h : (run {} steps).builder name = .ok (id, t)) :
    ∃ w sid s us ut, (run {} steps).step (.snap name keep) = .ok (.done, w) ∧
      w.snapshot keep = .ok (sid, s) ∧ s.length = t.builder.length ∧
      ReadsAs w keep us (CodeUnit.decode ut) ∧
      WasContent steps id t.builder.version t.builder.length us ∧
      WasContent steps id t.builder.version t.builder.length ut ∧
      (ReadsAs w keep t.builder.units t.builder.text ↔
        (∀ seg, s.array = some seg → seg.units = t.builder.units) ∧
          ∀ x, s.text = some x → x = t.builder.text) ∧
      (clears id {} steps < 2 ^ 64 →
        Undamaged id t.builder.version t.builder.length {} steps →
        ReadsAs w keep t.builder.units t.builder.text) := by
  have hw := consistent_run steps
  have hf := faithful_run steps
  have hb := builderAt?_of_tenant (builder_eq_ok h).2
  have hknows := knows_run steps
  obtain ⟨w, hstep⟩ : ∃ w, (run {} steps).step (.snap name keep) = .ok (.done, w) :=
    ⟨_, step_snap h⟩
  obtain ⟨⟨sid, s, hs, ho⟩, hbuilders⟩ := snapshot_snap hf hw h hstep
  have hw' : w.Consistent := by
    rw [← after_of_step hstep]
    exact hw.after _
  have hf' : Faithful (WasContent steps) w := by
    rw [← after_of_step hstep]
    exact hf.after hw hknows _
  have hb' : w.builderAt? id = some t.builder := (hbuilders id).trans hb
  have hsee := see_of_builderAt? hb'
  have hpub := hw' id _ hb'
  -- The snapshot has the version and the length that the builder publishes.
  have hcurrent : s.isCurrent w.see = true := by
    simp [Snapshot.isCurrent, ho, hsee, hpub.version, hpub.length]
  have hcontent : s.content w.see = t.builder.units := by
    simp only [Snapshot.content, ho, hsee]
    rfl
  have hshows := (hf'.shows sid s id _ _ (snapshot_eq_ok hs).2 ho).2
  -- Taking the snapshot has left the builders as they were.
  have hsees := (hknows.of_eq hbuilders).sees hw' hb' t.builder.version t.builder.length
  obtain ⟨us, ut, hreads, hus, hut⟩ := readsAs_of_shows hs hshows hsees hcurrent
  have hof : s.unitsOf us = us := by rw [Snapshot.unitsOf, ho]
  rw [hof] at hreads
  refine ⟨w, sid, s, us, ut, hstep, hs, by rw [Snapshot.length, ho], hreads, hus, hut,
    readsAs_content_iff hs hcurrent ho hcontent, fun hc hu => ?_⟩
  rw [hus.eq_units (moment_now hb) hc hu, hut.eq_units (moment_now hb) hc hu] at hreads
  exact hreads

/-- A session that reads a snapshot, drops it and takes another one of the same content. -/
def repeated : List Step :=
  [.newBuilder "b" ⟨8, .error⟩, .edit "b" (.text "ab"), .snap "b" "s", .look "s" .text,
   .dropSnapshot "s"]

theorem undamaged_of_forall (h : ∀ name e b, Step.edit name e ∈ steps → ¬ e.damages b n) :
    Undamaged id v n w steps := by
  intro before name e later b hsteps _ _ _
  apply h name e b
  rw [hsteps]
  simp

theorem fresh_snapshot_repeated :
    ∃ w, (run {} repeated).step (.snap "b" "t") = .ok (.done, w) ∧
      ReadsAs w "t" (CodeUnit.encode "ab") "ab" := by
  obtain ⟨w, sid, s, us, ut, hstep, -, -, -, -, -, -, hright⟩ :=
    fresh_snapshot repeated "b" "t" ⟨0⟩ _ rfl
  refine ⟨w, hstep, hright (by decide) (undamaged_of_forall ?_)⟩
  intro name e b he
  simp only [repeated, List.mem_cons, List.not_mem_nil, or_false, Step.edit.injEq,
    reduceCtorEq, false_or] at he
  obtain ⟨-, rfl⟩ := he
  simp [Edit.damages]

/-- A session that cuts the content and appends to it again after a snapshot of it was
read and dropped. -/
def shortened : List Step :=
  [.newBuilder "b" ⟨8, .error⟩, .edit "b" (.text "abc"), .snap "b" "s", .look "s" .text,
   .dropSnapshot "s", .edit "b" (.truncate 2), .edit "b" (.unit 0x64)]

/-- The builder uses the dropped snapshot again, with the text that it has kept. -/
theorem fresh_snapshot_shortened :
    ((run {} shortened).builder? "b").map (·.text) = some "abd" ∧
      ∃ w w', (run {} shortened).step (.snap "b" "t") = .ok (.done, w) ∧
        w.step (.look "t" .text) = .ok (.text "abc", w') :=
  ⟨by decide, _, _, rfl, rfl⟩

/-! ## §5. Held snapshots. -/

/-- Some name holds the snapshot all the time, and no step recycles it. -/
def Kept (sid : SnapshotId) (w : Workspace) : List Step → Prop
  | [] => w.isHeld sid = true
  | s :: rest =>
      w.isHeld sid = true ∧
        (∀ name, s = .look name .recycle → w.snapshotNames.get? name ≠ some sid) ∧
        Kept sid (w.after s) rest

theorem Kept.append {sid : SnapshotId} {more : List Step} (later : List Step) :
    ∀ {w : Workspace}, Kept sid w (later ++ more) → Kept sid w later ∧ Kept sid (w.run later) more := by
  induction later with
  | nil =>
      intro w h
      refine ⟨?_, h⟩
      cases more with
      | nil => exact h
      | cons s rest => exact h.1
  | cons s rest ih =>
      intro w h
      obtain ⟨hheld, hmove, hrest⟩ := h
      exact ⟨⟨hheld, hmove, (ih hrest).1⟩, (ih hrest).2⟩

/-- No step recycles a snapshot that is kept. -/
theorem Kept.not_mayRecycle {sid : SnapshotId} {s : Step} {rest : List Step}
    (h : Kept sid w (s :: rest)) : ¬ s.mayRecycle w sid := by
  rintro (⟨name, rfl, hname⟩ | hheld)
  · exact h.2.1 name rfl hname
  · rw [h.1] at hheld
    cases hheld

/-- **A kept snapshot shows content of moments of the session**, all of them of the
version and the length at which it was taken. -/
theorem shows_of_kept {sid : SnapshotId} {s₀ : Snapshot}
    (hb : ∃ b, (run {} steps).builderAt? id = some b)
    (hs₀ : (run {} steps).snapshotAt? sid = some s₀)
    (hshows : s₀.Shows id v n (WasContent steps id v n)) (hk : Kept sid (run {} steps) later) :
    (∃ b, (run {} (steps ++ later)).builderAt? id = some b) ∧
      ∃ s, (run {} (steps ++ later)).snapshotAt? sid = some s ∧
        s.Shows id v n (WasContent (steps ++ later) id v n) := by
  induction later using List.reverseRecOn with
  | nil =>
      rw [List.append_nil]
      exact ⟨hb, s₀, hs₀, hshows⟩
  | append_singleton later st ih =>
      obtain ⟨hkept, hlast⟩ := Kept.append later hk
      obtain ⟨⟨b, hb⟩, s, hs, hshows⟩ := ih hkept
      rw [← List.append_assoc, run_snoc]
      refine ⟨builderAt?_persists ⟨b, hb⟩, ?_⟩
      obtain ⟨s', hs', hr⟩ := (turned_after (run {} (steps ++ later)) st).old sid s hs
      refine ⟨s', hs', ?_⟩
      have hsees := (knows_run (steps ++ later)).sees (consistent_run _) hb v n
      rcases hr with hr | ⟨hmay, -⟩
      · exact (hshows.read hsees hr).mono fun _ hu => hu.append [st]
      · rw [run_append] at hmay
        exact absurd hmay hlast.not_mayRecycle

/-- The session takes the snapshot `sid` of the builder, which is `b` at that moment, and
holds it to the end. -/
def Holds (steps : List Step) (sid : SnapshotId) (id : BuilderId) (b : Builder) : Prop :=
  ∃ taken name keep later t, steps = taken ++ [.snap name keep] ++ later ∧
    (run {} taken).builder name = .ok (id, t) ∧ t.builder = b ∧
    (run {} (taken ++ [.snap name keep])).snapshotNames.get? keep = some sid ∧
    Kept sid (run {} (taken ++ [.snap name keep])) later

theorem Holds.moment {sid : SnapshotId} (h : Holds steps sid id b) : Moment steps id b := by
  obtain ⟨taken, name, keep, later, t, rfl, ht, rfl, -, -⟩ := h
  have hb := builderAt?_of_tenant (builder_eq_ok ht).2
  rw [List.append_assoc]
  exact (moment_now hb).append _

theorem Holds.shows {sid : SnapshotId} (h : Holds steps sid id b) :
    (∃ b', (run {} steps).builderAt? id = some b') ∧
      ∃ s, (run {} steps).snapshotAt? sid = some s ∧
        s.Shows id b.version b.length (WasContent steps id b.version b.length) := by
  obtain ⟨taken, name, keep, later, t, rfl, ht, rfl, hsid, hk⟩ := h
  have hstep : (run {} taken).step (.snap name keep) =
      .ok (.done, run {} (taken ++ [.snap name keep])) := by
    rw [run_snoc, after_of_step (step_snap ht), step_snap ht]
  obtain ⟨⟨sid', s, hs, ho⟩, -⟩ :=
    snapshot_snap (faithful_run taken) (consistent_run taken) ht hstep
  obtain ⟨hname, hat⟩ := snapshot_eq_ok hs
  rw [hsid] at hname
  cases hname
  obtain ⟨hb, hshows⟩ := (faithful_run (taken ++ [.snap name keep])).shows _ s id _ _ hat ho
  exact shows_of_kept hb hat hshows hk

/-- **What a held snapshot shows.**  It is refused, or its reads show content that the
builder had at the version and the length of the moment when it was taken.  That is
the content of this moment as long as no edit of that version damaged it; a text
that was frozen has lost the surrogates that stood alone.  And a snapshot that is bound
and has kept nothing shows the present content, whatever was done to it. -/
theorem held_snapshot {sid : SnapshotId} (h : Holds steps sid id b) {name : String}
    {s : Snapshot} (hs : (run {} steps).snapshot name = .ok (sid, s)) :
    (Refuses (run {} steps) name ∨
      ∃ us ut, ReadsAs (run {} steps) name (s.unitsOf us) (CodeUnit.decode ut) ∧
        WasContent steps id b.version b.length us ∧
        WasContent steps id b.version b.length ut ∧
        (clears id {} steps < 2 ^ 64 → Undamaged id b.version b.length {} steps →
          us = b.units ∧ ut = b.units)) ∧
    (s.isFrozen = false → s.array = none → s.text = none →
      Refuses (run {} steps) name ∨
        ∃ b', (run {} steps).builderAt? id = some b' ∧
          ReadsAs (run {} steps) name b'.units b'.text) := by
  obtain ⟨⟨b', hb'⟩, s', hs', hshows⟩ := h.shows
  rw [(snapshot_eq_ok hs).2] at hs'
  cases hs'
  have hw := consistent_run steps
  have hsees := (knows_run steps).sees hw hb' b.version b.length
  by_cases hc : s.isCurrent (run {} steps).see = true
  · refine ⟨.inr ?_, fun hfrozen harray htext => .inr ⟨b', hb', ?_⟩⟩
    · obtain ⟨us, ut, hreads, hus, hut⟩ := readsAs_of_shows hs hshows hsees hc
      refine ⟨us, ut, hreads, hus, hut, fun hclears hu => ?_⟩
      exact ⟨hus.eq_units h.moment hclears hu, hut.eq_units h.moment hclears hu⟩
    · -- It has kept nothing, so it shows the builder's memory as it is now.
      have ho : s.origin = .bound id b.version b.length := hshows.origin_of_not_frozen hfrozen
      have hsee := see_of_builderAt? hb'
      have hcontent : s.content (run {} steps).see = b'.units := by
        simp only [Snapshot.isCurrent, ho, hsee, Bool.and_eq_true, decide_eq_true_eq] at hc
        simp only [Snapshot.content, ho, hsee]
        rw [← hc.2, (hw id b' hb').length]
        rfl
      refine (readsAs_content_iff hs hc ho hcontent).mpr ⟨fun seg hseg => ?_, fun x hx => ?_⟩
      · rw [harray] at hseg
        cases hseg
      · rw [htext] at hx
        cases hx
  · have hrefused := refuses_of_not_current hs (Bool.eq_false_iff.mpr hc)
    exact ⟨.inl hrefused, fun _ _ _ => .inl hrefused⟩

/-- A session that appends to the content and takes that back while a snapshot is held. -/
def restored : List Step :=
  [.newBuilder "b" ⟨8, .error⟩, .edit "b" (.text "ab"), .snap "b" "s", .edit "b" (.text "c"),
   .edit "b" (.truncate 2)]

theorem held_snapshot_restored :
    ∃ b, Holds restored ⟨0⟩ ⟨0⟩ b ∧ b.text = "ab" ∧
      ReadsAs (run {} restored) "s" b.units b.text := by
  have hkept : Kept ⟨0⟩ (run {} (restored.take 3)) (restored.drop 3) := by
    refine ⟨rfl, ?_, rfl, ?_, rfl⟩
    · intro name he
      cases he
    · intro name he
      cases he
  have hholds : Holds restored ⟨0⟩ ⟨0⟩ _ :=
    ⟨restored.take 2, "b", "s", restored.drop 3, _, rfl, rfl, rfl, rfl, hkept⟩
  refine ⟨_, hholds, by decide, ?_⟩
  have hfound : (run {} restored).snapshot "s" = .ok (⟨0⟩, ⟨.bound ⟨0⟩ 0 2, none, none⟩) := rfl
  rcases (held_snapshot hholds hfound).1 with hrefused | ⟨us, ut, hreads, -, -, hright⟩
  · obtain ⟨w, hread⟩ : ∃ w, (run {} restored).step (.look "s" .text) = .ok (.text "ab", w) :=
      ⟨_, rfl⟩
    have hstale := hrefused.look .text (by simp)
    rw [hread] at hstale
    cases hstale
  · obtain ⟨rfl, rfl⟩ := hright (by decide) (undamaged_of_forall fun name e b he => by
      simp only [restored, List.mem_cons, List.not_mem_nil, or_false, Step.edit.injEq,
        reduceCtorEq, false_or] at he
      rcases he with ⟨-, rfl⟩ | ⟨-, rfl⟩ | ⟨-, rfl⟩
      · simp [Edit.damages]
      · simp [Edit.damages]
      · simp only [Edit.damages, not_and]
        intro hlt
        exact absurd hlt (by decide))
    exact hreads

/-- A session that cuts the content and appends to it again while a snapshot is held. -/
def replaced : List Step :=
  [.newBuilder "b" ⟨8, .error⟩, .edit "b" (.text "abc"), .snap "b" "s", .edit "b" (.truncate 2),
   .edit "b" (.unit 0x64)]

/-- The snapshot was taken of one text and passes for current with another one. -/
theorem held_snapshot_replaced :
    ((run {} (replaced.take 3)).builder? "b").map (·.text) = some "abc" ∧
      ∃ w, (run {} replaced).step (.look "s" .text) = .ok (.text "abd", w) :=
  ⟨by decide, _, rfl⟩

end Workspace
end ValueText
