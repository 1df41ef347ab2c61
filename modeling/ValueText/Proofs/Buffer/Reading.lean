/-
  ValueText.Proofs.Buffer.Reading — what the reads of a snapshot can show.

  A snapshot shows what it has kept, and otherwise the builder's memory.  Whatever
  it shows was therefore content of its builder at some moment.  `K u` says that
  `u` was such content; every read, and freezing, stays within it.

  Main results:

    • `Shows.read*`      a read shows content that `K` knows, and keeps no other;
    • `Shows.freeze?`    so does a frozen snapshot;
    • `snapshotAt?_after` what one step does to a snapshot: it is read, frozen, or
                         recycled, and recycled only by request or when no name
                         holds it.
-/
import ValueText.Proofs.Buffer.Session

namespace ValueText

namespace Snapshot

/-! ## §1. Reads as functions of what is kept. -/

variable {see : BuilderId → Published} {s s' : Snapshot}

/-- The units that a snapshot of the content `u` shows: a text that was frozen has
lost the surrogates that stood alone. -/
def unitsOf (s : Snapshot) (u : List CodeUnit) : List CodeUnit :=
  match s.origin with
  | .text _ => CodeUnit.encode (CodeUnit.decode u)
  | .bound .. | .units _ => u

theorem unitsOf_congr (h : s'.origin = s.origin) (u : List CodeUnit) :
    s'.unitsOf u = s.unitsOf u := by
  rw [unitsOf, unitsOf, h]

theorem decode_unitsOf (s : Snapshot) (u : List CodeUnit) :
    CodeUnit.decode (s.unitsOf u) = CodeUnit.decode u := by
  unfold unitsOf
  split
  · exact CodeUnit.decode_encode _
  · rfl
  · rfl

theorem origin_readSegment? {seg : Segment} (h : s.readSegment? see = some (seg, s')) :
    s'.origin = s.origin := by
  unfold readSegment? at h
  split at h
  · split at h
    · cases h; rfl
    · cases h; rfl
  · cases h

theorem origin_readArray? {us : List CodeUnit} (h : s.readArray? see = some (us, s')) :
    s'.origin = s.origin := by
  unfold readArray? at h
  split at h
  · cases h
  · next seg s₁ hseg =>
      rw [← origin_readSegment? hseg]
      split at h
      · cases h; rfl
      · cases h; rfl

theorem origin_readText? {t : String} (h : s.readText? see = some (t, s')) :
    s'.origin = s.origin := by
  unfold readText? at h
  split at h
  · split at h
    · cases h; rfl
    · cases h; rfl
  · cases h

/-- What is not bound any more was frozen. -/
theorem origin_freeze? (h : s.freeze? see = some s') :
    s'.origin = s.origin ∨ s'.boundTo? = none := by
  unfold freeze? at h
  split at h
  · cases h; exact .inl rfl
  · split at h
    · split at h
      · cases h; exact .inr rfl
      · cases h; exact .inr rfl
      · cases h; exact .inr rfl
    · cases h

/-- Everything that a snapshot bound to version `v` and length `n` of a builder, or
frozen since, can show without looking at the builder is in `K`. -/
structure Shows (id : BuilderId) (v : UInt64) (n : Nat) (K : List CodeUnit → Prop)
    (s : Snapshot) : Prop where
  origin : s.origin = .bound id v n ∨ (∃ seg, s.origin = .units seg ∧ K seg.units) ∨
    ∃ u, s.origin = .text (CodeUnit.decode u) ∧ K u
  array : ∀ seg, s.array = some seg → ∃ u, K u ∧ seg.units = s.unitsOf u
  text : ∀ t, s.text = some t → ∃ u, K u ∧ t = CodeUnit.decode u

/-- What the builder publishes is in `K`, as long as its version and length are
those that the snapshot remembers. -/
def Sees (see : BuilderId → Published) (id : BuilderId) (v : UInt64) (n : Nat)
    (K : List CodeUnit → Prop) : Prop :=
  (see id).version = v → (see id).length = n → K ((see id).region.slice 0 n)

namespace Shows

variable {id : BuilderId} {v : UInt64} {n : Nat} {K L : List CodeUnit → Prop}

theorem mono (h : Shows id v n K s) (hK : ∀ u, K u → L u) : Shows id v n L s := by
  refine ⟨?_, ?_, ?_⟩
  · rcases h.origin with ho | ⟨seg, ho, hu⟩ | ⟨u, ho, hu⟩
    · exact .inl ho
    · exact .inr (.inl ⟨seg, ho, hK _ hu⟩)
    · exact .inr (.inr ⟨u, ho, hK _ hu⟩)
  · intro seg hseg
    obtain ⟨u, hu, he⟩ := h.array seg hseg
    exact ⟨u, hK _ hu, he⟩
  · intro t ht
    obtain ⟨u, hu, he⟩ := h.text t ht
    exact ⟨u, hK _ hu, he⟩

/-- A bound snapshot that has kept nothing shows nothing of its own. -/
theorem unread (ho : s.origin = .bound id v n) (ha : s.array = none) (ht : s.text = none) :
    Shows id v n K s := by
  refine ⟨.inl ho, ?_, ?_⟩
  · intro seg hseg
    rw [ha] at hseg
    cases hseg
  · intro t htext
    rw [ht] at htext
    cases htext

/-- Only a bound snapshot is not frozen. -/
theorem origin_of_not_frozen (h : Shows id v n K s) (hf : s.isFrozen = false) :
    s.origin = .bound id v n := by
  unfold isFrozen boundTo? at hf
  rcases h.origin with ho | ⟨seg, ho, -⟩ | ⟨u, ho, -⟩
  · exact ho
  · rw [ho] at hf
    cases hf
  · rw [ho] at hf
    cases hf

/-- The content at the origin of a current snapshot. -/
theorem content (h : Shows id v n K s) (hs : Sees see id v n K)
    (hc : s.isCurrent see = true) : ∃ u, K u ∧ s.content see = s.unitsOf u := by
  unfold Snapshot.content unitsOf
  unfold isCurrent at hc
  rcases h.origin with ho | ⟨seg, ho, hu⟩ | ⟨u, ho, hu⟩
  · rw [ho] at hc ⊢
    simp only [Bool.and_eq_true, decide_eq_true_eq] at hc
    exact ⟨_, hs hc.1 hc.2, rfl⟩
  · rw [ho]
    exact ⟨_, hu, rfl⟩
  · rw [ho]
    exact ⟨u, hu, rfl⟩

/-- **A segment that is read shows content that `K` knows.** -/
theorem readSegment? (h : Shows id v n K s) (hs : Sees see id v n K) {seg : Segment}
    (hr : s.readSegment? see = some (seg, s')) :
    Shows id v n K s' ∧ ∃ u, K u ∧ seg.units = s.unitsOf u := by
  unfold Snapshot.readSegment? at hr
  split at hr
  · next hc =>
      split at hr
      · next seg' harray =>
          cases hr
          exact ⟨h, h.array _ harray⟩
      · next harray =>
          -- Nothing is kept yet: the units come from the origin, and are kept now.
          obtain ⟨u, hu, he⟩ := h.content hs hc
          injection hr with hr
          injection hr with hmade hkept
          rw [hmade] at hkept
          have hseg : seg.units = s.unitsOf u := by
            rw [← he, ← hmade]
            cases ho : s.origin with
            | units seg => simp only [Snapshot.content, ho]
            | bound id v n => simp only [Segment.units_whole]
            | text t => simp only [Segment.units_whole]
          subst hkept
          refine ⟨⟨h.origin, ?_, h.text⟩, u, hu, hseg⟩
          intro seg' hseg'
          cases hseg'
          exact ⟨u, hu, hseg⟩
  · cases hr

/-- **An array that is read shows content that `K` knows.** -/
theorem readArray? (h : Shows id v n K s) (hs : Sees see id v n K) {us : List CodeUnit}
    (hr : s.readArray? see = some (us, s')) :
    Shows id v n K s' ∧ ∃ u, K u ∧ us = s.unitsOf u := by
  unfold Snapshot.readArray? at hr
  split at hr
  · cases hr
  · next seg s₁ hseg =>
      obtain ⟨hs₁, u, hu, he⟩ := h.readSegment? hs hseg
      split at hr
      · next hcover =>
          cases hr
          exact ⟨hs₁, u, hu, by rw [← he, Segment.units_of_coversArray hcover]⟩
      · -- The segment does not cover its array, so a copy of its units is kept instead.
        cases hr
        refine ⟨⟨hs₁.origin, ?_, hs₁.text⟩, u, hu, he⟩
        intro seg' hseg'
        cases hseg'
        refine ⟨u, hu, ?_⟩
        rw [Segment.units_whole, he]
        exact (unitsOf_congr (origin_readSegment? hseg) u).symm

/-- **A text that is read decodes content that `K` knows.** -/
theorem readText? (h : Shows id v n K s) (hs : Sees see id v n K) {t : String}
    (hr : s.readText? see = some (t, s')) :
    Shows id v n K s' ∧ ∃ u, K u ∧ t = CodeUnit.decode u := by
  unfold Snapshot.readText? at hr
  split at hr
  · next hc =>
      split at hr
      · next t' htext =>
          cases hr
          exact ⟨h, h.text _ htext⟩
      · next htext =>
          injection hr with hr
          injection hr with hmade hkept
          rw [hmade] at hkept
          have htext : ∃ u, K u ∧ t = CodeUnit.decode u := by
            rw [← hmade]
            -- The text is decoded from the array that is kept, or else from the origin.
            cases harray : s.array with
            | some seg =>
                obtain ⟨u, hu, he⟩ := h.array seg harray
                refine ⟨u, hu, ?_⟩
                show CodeUnit.decode seg.units = CodeUnit.decode u
                rw [he, decode_unitsOf]
            | none =>
                rcases h.origin with ho | ⟨seg, ho, hu⟩ | ⟨u, ho, hu⟩
                · obtain ⟨u, hu, he⟩ := h.content hs hc
                  rw [ho]
                  exact ⟨u, hu, by rw [he, decode_unitsOf]⟩
                · rw [ho]
                  exact ⟨_, hu, rfl⟩
                · rw [ho]
                  exact ⟨u, hu, rfl⟩
          subst hkept
          refine ⟨⟨h.origin, h.array, ?_⟩, htext⟩
          intro t' ht'
          cases ht'
          exact htext
  · cases hr

/-- **Freezing keeps to content that `K` knows.** -/
theorem freeze? (h : Shows id v n K s) (hs : Sees see id v n K)
    (hr : s.freeze? see = some s') : Shows id v n K s' := by
  unfold Snapshot.freeze? at hr
  split at hr
  · cases hr; exact h
  · next hfrozen =>
      have ho : s.origin = .bound id v n :=
        h.origin_of_not_frozen (Bool.eq_false_iff.mpr hfrozen)
      -- The units of a bound snapshot are the content as it is.
      have hof (u : List CodeUnit) : s.unitsOf u = u := by rw [unitsOf, ho]
      split at hr
      · next hc =>
          split at hr
          · next _ seg harray =>
              cases hr
              obtain ⟨u, hu, he⟩ := h.array seg harray
              rw [hof] at he
              refine ⟨.inr (.inl ⟨seg, rfl, he ▸ hu⟩), ?_, h.text⟩
              intro seg' hseg'
              cases harray.symm.trans hseg'
              exact ⟨u, hu, he⟩
          · next t htext harray =>
              cases hr
              obtain ⟨u, hu, rfl⟩ := h.text t harray
              refine ⟨.inr (.inr ⟨u, rfl, hu⟩), ?_, h.text⟩
              intro seg' hseg'
              cases htext.symm.trans hseg'
          · next harray htext =>
              cases hr
              obtain ⟨u, hu, he⟩ := h.content hs hc
              rw [hof] at he
              refine ⟨.inr (.inl ⟨_, rfl, by rw [Segment.units_whole, he]; exact hu⟩), ?_, h.text⟩
              intro seg' hseg'
              cases hseg'
              exact ⟨u, hu, by rw [Segment.units_whole]; exact he⟩
      · cases hr

end Shows

/-- `s'` is `s` after at most one read, or after freezing. -/
inductive Read (see : BuilderId → Published) (s : Snapshot) : Snapshot → Prop
  | none : Read see s s
  | segment {seg : Segment} {s' : Snapshot} : s.readSegment? see = some (seg, s') → Read see s s'
  | array {us : List CodeUnit} {s' : Snapshot} : s.readArray? see = some (us, s') → Read see s s'
  | text {t : String} {s' : Snapshot} : s.readText? see = some (t, s') → Read see s s'
  | freeze {s' : Snapshot} : s.freeze? see = some s' → Read see s s'

/-- A read leaves the tie to the builder as it is, or cuts it. -/
theorem Read.origin (h : Read see s s') : s'.origin = s.origin ∨ s'.boundTo? = Option.none := by
  cases h with
  | none => exact .inl rfl
  | segment hr => exact .inl (origin_readSegment? hr)
  | array hr => exact .inl (origin_readArray? hr)
  | text hr => exact .inl (origin_readText? hr)
  | freeze hr => exact origin_freeze? hr

theorem Shows.read {id : BuilderId} {v : UInt64} {n : Nat} {K : List CodeUnit → Prop}
    (h : Shows id v n K s) (hs : Sees see id v n K) (hr : Read see s s') : Shows id v n K s' := by
  cases hr with
  | none => exact h
  | segment hr => exact (h.readSegment? hs hr).1
  | array hr => exact (h.readArray? hs hr).1
  | text hr => exact (h.readText? hs hr).1
  | freeze hr => exact h.freeze? hs hr

end Snapshot

namespace Workspace

variable {w w₁ w' : Workspace}

/-! ## §2. Steps that leave the snapshots alone. -/

/-- The snapshot with a number. -/
def snapshotAt? (w : Workspace) (sid : SnapshotId) : Option Snapshot := w.snapshots[sid.index]?

/-- The snapshot that a builder made last, unless it let it go. -/
def cachedAt? (w : Workspace) (id : BuilderId) : Option SnapshotId :=
  (w.tenants[id.index]?).bind (·.cached)

/-- The snapshots are those of `w`; a builder may have let its own go. -/
structure Quiet (w w' : Workspace) : Prop where
  snapshots : w'.snapshots = w.snapshots
  cached : ∀ id, w'.cachedAt? id = w.cachedAt? id ∨ w'.cachedAt? id = none

theorem Quiet.of_eq (hs : w'.snapshots = w.snapshots) (ht : w'.tenants = w.tenants) : Quiet w w' :=
  ⟨hs, fun id => .inl (by rw [cachedAt?, cachedAt?, ht])⟩

theorem Quiet.trans (h₁ : Quiet w w₁) (h₂ : Quiet w₁ w') : Quiet w w' := by
  refine ⟨h₂.snapshots.trans h₁.snapshots, fun id => ?_⟩
  rcases h₂.cached id with he | hn
  · rw [he]
    exact h₁.cached id
  · exact .inr hn

theorem cachedAt?_modify (w : Workspace) (i : Nat) (f : Tenant → Tenant) (id : BuilderId) :
    cachedAt? { w with tenants := w.tenants.modify i f } id =
      if i = id.index then (w.tenants[id.index]?).bind fun t => (f t).cached
      else w.cachedAt? id := by
  simp only [cachedAt?, Array.getElem?_modify]
  by_cases h : i = id.index
  · rw [if_pos h, if_pos h]
    cases w.tenants[id.index]? <;> rfl
  · rw [if_neg h, if_neg h]

theorem quiet_setBuilder (w : Workspace) (id : BuilderId) (b : Builder) :
    Quiet w (w.setBuilder id b) := by
  refine ⟨rfl, fun id' => .inl ?_⟩
  rw [setBuilder, cachedAt?_modify]
  split
  · rfl
  · rfl

theorem quiet_disposeBuilder (w : Workspace) (id : BuilderId) : Quiet w (w.disposeBuilder id) := by
  unfold disposeBuilder
  split
  · exact .of_eq rfl rfl
  · split
    · exact .of_eq rfl rfl
    · refine ⟨rfl, fun id' => ?_⟩
      rw [cachedAt?_modify]
      split
      · right
        cases w.tenants[id'.index]? <;> rfl
      · exact .inl rfl

theorem quiet_foldl (ids : List BuilderId) :
    ∀ w : Workspace, Quiet w (ids.foldl (fun w id => w.disposeBuilder id) w) := by
  induction ids with
  | nil => intro w; exact .of_eq rfl rfl
  | cons id ids ih => intro w; exact (quiet_disposeBuilder w id).trans (ih _)

theorem quiet_nameBuilder (w : Workspace) (name : String) (id : BuilderId) :
    Quiet w (w.nameBuilder name id) := by
  unfold nameBuilder
  have hset : Quiet w { w with builderNames := w.builderNames.set name id } := .of_eq rfl rfl
  split
  · next old _ => exact hset.trans (quiet_disposeBuilder _ old)
  · exact hset

theorem quiet_addBuilder (w : Workspace) (b : Builder) : Quiet w (w.addBuilder b).2 := by
  refine ⟨rfl, fun id => ?_⟩
  simp only [addBuilder, cachedAt?, Array.getElem?_push]
  split
  · exact .inr rfl
  · exact .inl rfl

theorem quiet_takeFrom (w : Workspace) (name : String) (p : Pool BuilderId) :
    Quiet w (w.takeFrom name p).2 := by
  unfold takeFrom
  split
  · exact .of_eq rfl rfl
  · exact quiet_addBuilder w _

theorem quiet_giveBackTo (w : Workspace) (name : String) (p : Pool BuilderId) (id : BuilderId) :
    Quiet w (w.giveBackTo name p id) := by
  unfold giveBackTo
  split
  · exact .of_eq rfl rfl
  · split
    · exact .of_eq rfl rfl
    · exact quiet_disposeBuilder w id
    · exact (quiet_setBuilder w id _).trans (quiet_disposeBuilder _ id)
    · exact (quiet_setBuilder w id _).trans (.of_eq rfl rfl)

theorem quiet_rent {p t : String} {keep : Option String} {r : Reply}
    (h : w.step (.rent p t keep) = .ok (r, w')) : Quiet w w' := by
  obtain ⟨pool, pool₁, b, -, -, -, -, rfl⟩ := rent_eq_ok h
  have hset := quiet_setBuilder (w.takeFrom p pool).2 (w.takeFrom p pool).1 (b.appendText t).2
  apply (quiet_takeFrom w p pool).trans
  apply hset.trans
  cases keep with
  | some name => exact quiet_nameBuilder _ name _
  | none => exact quiet_giveBackTo _ p pool₁ _

/-! ## §3. What a step does to a snapshot. -/

/-- From `w` to `w'` each snapshot was read, frozen or recycled, the last only if it
`may` be; new ones have kept nothing and are bound to present content; and a builder
has the snapshot it had, or none, or a new one that is bound to it. -/
structure Turned (may : SnapshotId → Prop) (w w' : Workspace) : Prop where
  old : ∀ sid s, w.snapshotAt? sid = some s → ∃ s', w'.snapshotAt? sid = some s' ∧
    (Snapshot.Read w.see s s' ∨ may sid ∧ s.recycle? w.see = some s')
  new : ∀ sid s', w.snapshotAt? sid = none → w'.snapshotAt? sid = some s' →
    s'.array = none ∧ s'.text = none ∧ ∀ id v n, s'.origin = .bound id v n →
      ∃ b, w.builderAt? id = some b ∧ b.version = v ∧ b.length = n
  cached : ∀ id, w'.cachedAt? id = w.cachedAt? id ∨ w'.cachedAt? id = none ∨
    ∃ sid s', w'.cachedAt? id = some sid ∧ w.snapshotAt? sid = none ∧
      w'.snapshotAt? sid = some s' ∧ s'.boundTo? = some id

variable {may : SnapshotId → Prop}

theorem Quiet.turned (h : Quiet w w') : Turned may w w' := by
  have hat (sid : SnapshotId) : w'.snapshotAt? sid = w.snapshotAt? sid := by
    rw [snapshotAt?, snapshotAt?, h.snapshots]
  refine ⟨?_, ?_, ?_⟩
  · intro sid s hs
    exact ⟨s, (hat sid).trans hs, .inl .none⟩
  · intro sid s' hn hs'
    rw [hat, hn] at hs'
    cases hs'
  · intro id
    rcases h.cached id with he | hn
    · exact .inl he
    · exact .inr (.inl hn)

theorem Turned.quiet (h : Turned may w w₁) (hq : Quiet w₁ w') : Turned may w w' := by
  have hat (sid : SnapshotId) : w'.snapshotAt? sid = w₁.snapshotAt? sid := by
    rw [snapshotAt?, snapshotAt?, hq.snapshots]
  refine ⟨?_, ?_, ?_⟩
  · intro sid s hs
    rw [hat]
    exact h.old sid s hs
  · intro sid s' hn hs'
    rw [hat] at hs'
    exact h.new sid s' hn hs'
  · intro id
    rcases hq.cached id with he | hn
    · rw [he]
      rcases h.cached id with he | hn | ⟨sid, s', hc, hn, hs', hb⟩
      · exact .inl he
      · exact .inr (.inl hn)
      · exact .inr (.inr ⟨sid, s', hc, hn, (hat sid).trans hs', hb⟩)
    · exact .inr (.inl hn)

theorem snapshotAt?_setSnapshot (w : Workspace) (sid sid' : SnapshotId) (s : Snapshot) :
    (w.setSnapshot sid s).snapshotAt? sid' =
      if sid' = sid then (w.snapshotAt? sid).map fun _ => s else w.snapshotAt? sid' := by
  simp only [snapshotAt?, setSnapshot, Array.getElem?_modify]
  by_cases h : sid' = sid
  · subst h
    rw [if_pos rfl, if_pos rfl]
  · have hi : sid.index ≠ sid'.index := by
      intro hc
      exact h (by cases sid; cases sid'; simp_all)
    rw [if_neg h, if_neg hi]

theorem turned_setSnapshot {sid : SnapshotId} {s s' : Snapshot} (hs : w.snapshotAt? sid = some s)
    (h : Snapshot.Read w.see s s' ∨ may sid ∧ s.recycle? w.see = some s') :
    Turned may w (w.setSnapshot sid s') := by
  refine ⟨?_, ?_, fun _ => .inl rfl⟩
  · intro sid₁ s₁ hs₁
    -- The snapshot itself is read or recycled, every other one stays.
    rw [snapshotAt?_setSnapshot]
    by_cases he : sid₁ = sid
    · subst he
      rw [hs] at hs₁
      cases hs₁
      exact ⟨s', by rw [if_pos rfl, hs]; rfl, h⟩
    · exact ⟨s₁, by rw [if_neg he]; exact hs₁, .inl .none⟩
  · intro sid₁ s₁ hn hs₁
    rw [snapshotAt?_setSnapshot] at hs₁
    by_cases he : sid₁ = sid
    · rw [he, hs] at hn
      cases hn
    · rw [if_neg he, hn] at hs₁
      cases hs₁

theorem turned_addSnapshot (w : Workspace) {s : Snapshot} (ha : s.array = none)
    (ht : s.text = none) (ho : ∀ id v n, s.origin = .bound id v n →
      ∃ b, w.builderAt? id = some b ∧ b.version = v ∧ b.length = n) :
    Turned may w (w.addSnapshot s).2 := by
  have hat (sid : SnapshotId) : (w.addSnapshot s).2.snapshotAt? sid =
      if sid.index = w.snapshots.size then some s else w.snapshotAt? sid := by
    simp only [snapshotAt?, addSnapshot, Array.getElem?_push]
  refine ⟨?_, ?_, fun _ => .inl rfl⟩
  · intro sid s₁ hs₁
    -- An old snapshot has a smaller number than the new one.
    have hlt : sid.index ≠ w.snapshots.size := by
      intro he
      rw [snapshotAt?, Array.getElem?_eq_none (by omega)] at hs₁
      cases hs₁
    exact ⟨s₁, by rw [hat, if_neg hlt]; exact hs₁, .inl .none⟩
  · intro sid s₁ hn hs₁
    rw [hat] at hs₁
    split at hs₁
    · cases hs₁
      exact ⟨ha, ht, ho⟩
    · rw [hn] at hs₁
      cases hs₁

theorem reusable?_eq_some {t : Tenant} {sid : SnapshotId} {s : Snapshot}
    (h : w.reusable? t = some (sid, s)) :
    t.cached = some sid ∧ w.isHeld sid = false ∧
      ∃ s₀, w.snapshotAt? sid = some s₀ ∧ s₀.recycle? w.see = some s := by
  unfold reusable? at h
  split at h
  · cases h
  · next sid' hc =>
      split at h
      · cases h
      · next hheld =>
          simp only [Option.map_eq_some_iff, Option.bind_eq_some_iff, Prod.mk.injEq] at h
          obtain ⟨s₁, ⟨s₀, hs₀, hr⟩, rfl, rfl⟩ := h
          exact ⟨hc, Bool.eq_false_iff.mpr hheld, s₀, hs₀, hr⟩

theorem turned_takeSnapshot {id : BuilderId} {t : Tenant} (ht : w.tenants[id.index]? = some t)
    (hmay : ∀ sid, w.isHeld sid = false → may sid) : Turned may w (w.takeSnapshot id t).2 := by
  unfold takeSnapshot
  split
  · next sid s hr =>
      obtain ⟨-, hheld, s₀, hs₀, hrec⟩ := reusable?_eq_some hr
      exact turned_setSnapshot hs₀ (.inr ⟨hmay sid hheld, hrec⟩)
  · have hb := builderAt?_of_tenant ht
    have hadd : Turned may w (w.addSnapshot (.bind id t.builder)).2 := by
      apply turned_addSnapshot w rfl rfl
      intro id' v n ho
      cases ho
      exact ⟨t.builder, hb, rfl, rfl⟩
    refine ⟨hadd.old, hadd.new, ?_⟩
    intro id'
    have hmod := cachedAt?_modify (w.addSnapshot (.bind id t.builder)).2 id.index
      (fun t => { t with cached := some (w.addSnapshot (.bind id t.builder)).1 }) id'
    -- Only the builder that takes the snapshot keeps it.
    by_cases hid : id.index = id'.index
    · have he : id = id' := by cases id; cases id'; simp_all
      subst he
      rw [if_pos rfl] at hmod
      refine .inr (.inr ⟨⟨w.snapshots.size⟩, .bind id t.builder, ?_, ?_, ?_, rfl⟩)
      · apply hmod.trans
        show (w.tenants[id.index]?).bind _ = _
        rw [ht]
        rfl
      · simp [snapshotAt?]
      · simp [snapshotAt?, addSnapshot]
    · rw [if_neg hid] at hmod
      exact .inl hmod

/-- A step may recycle a snapshot when it asks for that, or when no name holds it. -/
def Step.mayRecycle (w : Workspace) (s : Step) (sid : SnapshotId) : Prop :=
  (∃ name, s = .look name .recycle ∧ w.snapshotNames.get? name = some sid) ∨ w.isHeld sid = false

theorem snapshot_eq_ok {name : String} {v : SnapshotId × Snapshot}
    (h : w.snapshot name = .ok v) :
    w.snapshotNames.get? name = some v.1 ∧ w.snapshotAt? v.1 = some v.2 := by
  simp only [snapshot] at h
  split at h
  · cases h
  · next sid hsid =>
      split at h
      · next s hs => cases h; exact ⟨hsid, hs⟩
      · cases h

theorem turned_look {sid : SnapshotId} {s : Snapshot} {l : Look} (hs : w.snapshotAt? sid = some s)
    (hmay : l = .recycle → may sid) : Turned may w (w.look sid s l).2 := by
  have hsame : Turned may w w := Quiet.turned (.of_eq rfl rfl)
  cases l with
  | text | display =>
      simp only [look]
      split
      · next t s' hr => exact turned_setSnapshot hs (.inl (.text hr))
      · exact hsame
  | array =>
      simp only [look]
      split
      · next us s' hr => exact turned_setSnapshot hs (.inl (.array hr))
      · exact hsame
  | segment =>
      simp only [look]
      split
      · next seg s' hr => exact turned_setSnapshot hs (.inl (.segment hr))
      · exact hsame
  | freeze =>
      simp only [look]
      split
      · next s' hr =>
          simp only [Option.map_eq_some_iff, Prod.mk.injEq, true_and] at hr
          obtain ⟨s₁, hr, rfl⟩ := hr
          exact turned_setSnapshot hs (.inl (.freeze hr))
      · exact hsame
  | recycle =>
      simp only [look]
      split
      · next s' hr => exact turned_setSnapshot hs (.inr ⟨hmay rfl, hr⟩)
      · exact hsame

theorem turned_edit {id : BuilderId} {t : Tenant} {e : Edit} {r : Reply}
    (h : w.edit id t e = .ok (r, w')) : Turned may w w' := by
  have hset (b : Builder) : Turned may w (w.setBuilder id b) := (quiet_setBuilder w id b).turned
  have hsame : Turned may w w := Quiet.turned (.of_eq rfl rfl)
  cases e with
  | snapshot name =>
      obtain ⟨v, hv, h⟩ := ok_of_bind h
      obtain ⟨-, hs⟩ := snapshot_eq_ok hv
      dsimp only at h
      split at h
      · cases h; exact hsame
      · next seg s' hr =>
          cases h
          exact (turned_setSnapshot hs (.inl (.segment hr))).quiet (quiet_setBuilder _ id _)
  | builder other =>
      obtain ⟨_, _, h⟩ := ok_of_bind h
      cases h
      exact hset _
  | dispose => cases h; exact (quiet_disposeBuilder w id).turned
  | get i => simp only [edit] at h; split at h <;> cases h; exact hsame
  | set i u => simp only [edit] at h; split at h <;> cases h; exact hset _
  | unit u => cases h; exact hset _
  | units us => cases h; exact hset _
  | char c => cases h; exact hset _
  | repeated u n => cases h; exact hset _
  | text s => cases h; exact hset _
  | bool v => cases h; exact hset _
  | int width n => cases h; exact hset _
  | pieces ps complete => cases h; exact hset _
  | sink s => cases h; exact hset _
  | terminate => cases h; exact hset _
  | clear => cases h; exact hset _
  | truncate n => cases h; exact hset _

theorem turned_step {s : Step} {r : Reply} (h : w.step s = .ok (r, w')) :
    Turned (s.mayRecycle w) w w' := by
  have hsame {w' : Workspace} (hs : w'.snapshots = w.snapshots) (ht : w'.tenants = w.tenants) :
      Turned (s.mayRecycle w) w w' := Quiet.turned (.of_eq hs ht)
  -- A snapshot that is made of units or of a text is bound to no builder.
  have hfrozen (name : String) {s₀ : Snapshot} (ha : s₀.array = none) (ht : s₀.text = none)
      (ho : s₀.boundTo? = none) : Turned (s.mayRecycle w) w (w.addSnapshotNamed name s₀) := by
    refine (turned_addSnapshot w ha ht fun id v n hb => ?_).quiet (.of_eq rfl rfl)
    rw [Snapshot.boundTo?, hb] at ho
    cases ho
  cases s with
  | newBuilder b o =>
      cases h
      exact ((quiet_addBuilder w _).trans (quiet_nameBuilder _ b _)).turned
  | borrow b memory policy =>
      cases h
      have hnamed := (quiet_addBuilder w (.borrowing memory policy)).trans
        (quiet_nameBuilder _ b ⟨w.tenants.size⟩)
      refine (hnamed.trans ?_).turned
      exact .of_eq rfl rfl
  | dropBuilder b =>
      obtain ⟨id, _, h⟩ := ok_of_bind h
      cases h
      have hun : Quiet w (w.unnameBuilder b) := .of_eq rfl rfl
      exact (hun.trans (quiet_disposeBuilder _ id)).turned
  | edit name e =>
      obtain ⟨_, _, h⟩ := ok_of_bind h
      exact turned_edit h
  | snap b keep =>
      obtain ⟨v, hv, h⟩ := ok_of_bind h
      cases h
      have hmay (sid : SnapshotId) (hheld : w.isHeld sid = false) :
          (Step.snap b keep).mayRecycle w sid := .inr hheld
      exact (turned_takeSnapshot (builder_eq_ok hv).2 hmay).quiet (.of_eq rfl rfl)
  | ofUnits s us => cases h; exact hfrozen s rfl rfl rfl
  | ofText s t => cases h; exact hfrozen s rfl rfl rfl
  | ofSegment s us start length =>
      simp only [step] at h
      split at h <;> cases h
      exact hfrozen s rfl rfl rfl
  | clone s source =>
      obtain ⟨_, _, h⟩ := ok_of_bind h
      cases h
      exact hsame rfl rfl
  | dropSnapshot s =>
      obtain ⟨_, _, h⟩ := ok_of_bind h
      cases h
      exact hsame rfl rfl
  | look name l =>
      obtain ⟨v, hv, h⟩ := ok_of_bind h
      obtain ⟨hname, hat⟩ := snapshot_eq_ok hv
      have hmay (hl : l = .recycle) : (Step.look name l).mayRecycle w v.1 :=
        .inl ⟨name, by rw [hl], hname⟩
      have ht := turned_look hat hmay
      simp only [Except.ok.injEq] at h
      rw [h] at ht
      exact ht
  | newPool p o =>
      cases h
      have hset : Quiet w (w.setPool p (.new o)) := .of_eq rfl rfl
      exact (hset.trans (quiet_foldl _ _)).turned
  | take p b =>
      obtain ⟨pool, _, h⟩ := ok_of_bind h
      cases h
      exact ((quiet_takeFrom w p pool).trans (quiet_nameBuilder _ b _)).turned
  | giveBack p b =>
      obtain ⟨pool, _, h⟩ := ok_of_bind h
      obtain ⟨id, _, h⟩ := ok_of_bind h
      cases h
      have hun : Quiet w (w.unnameBuilder b) := .of_eq rfl rfl
      exact (hun.trans (quiet_giveBackTo _ p pool id)).turned
  | rent p t keep => exact (quiet_rent h).turned
  | allocate g capacity => cases h; exact hsame rfl rfl
  | adopt g memory => cases h; exact hsame rfl rfl
  | access g a =>
      obtain ⟨_, _, h⟩ := ok_of_bind h
      obtain ⟨_, rfl⟩ := access_cases h
      exact hsame rfl rfl

/-- **What a step does to the snapshots**; a refused step does nothing to them. -/
theorem turned_after (w : Workspace) (s : Step) : Turned (s.mayRecycle w) w (w.after s) := by
  cases hs : w.step s with
  | error e =>
      rw [after, hs]
      exact Quiet.turned (.of_eq rfl rfl)
  | ok o =>
      obtain ⟨r, w'⟩ := o
      rw [after_of_step hs]
      exact turned_step hs

end Workspace
end ValueText
