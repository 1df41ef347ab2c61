/-
  ValueText.Proofs.Buffer.Retirement — the snapshots of a builder that waits in a pool.

  A builder is cleared before it is put into a pool, which moves its version on.
  The snapshots that were taken of it have an earlier version from then on, unless
  they are recycled while it waits: those are bound to the empty content it has now.

  Main results:

    • `dated_run`   the version of a builder is that of its snapshots, moved on by as
                    many clears as there were since; where there was none and the
                    builder is idle, the snapshot is `Blank`;
    • `found_run`   the names of a session hold snapshots that exist.
-/
import ValueText.Proofs.Buffer.Freshness
import ValueText.Proofs.Buffer.Ownership

namespace ValueText

/-! ## §1. Snapshots without content. -/

namespace Snapshot

/-- The snapshot has no content, and what it has kept shows none. -/
structure Blank (s : Snapshot) : Prop where
  origin : (∃ id v, s.origin = .bound id v 0) ∨ s.origin = .units (.whole []) ∨ s.origin = .text ""
  array : ∀ seg, s.array = some seg → seg = .whole []
  text : ∀ t, s.text = some t → t = ""

namespace Blank

variable {see : BuilderId → Published} {s s' : Snapshot}

theorem content (h : s.Blank) : s.content see = [] := by
  rcases h.origin with ⟨id, v, ho⟩ | ho | ho
  · simp [Snapshot.content, ho, Region.slice_zero]
  · simp [Snapshot.content, ho]
  · simp only [Snapshot.content, ho]
    decide

theorem with_array (h : s.Blank) : Blank { s with array := some (.whole []) } :=
  ⟨h.origin, fun seg hseg => by cases hseg; rfl, h.text⟩

theorem with_text (h : s.Blank) : Blank { s with text := some "" } :=
  ⟨h.origin, h.array, fun t ht => by cases ht; rfl⟩

theorem readSegment? (h : s.Blank) : s.readSegment? see =
    if s.isCurrent see then some (.whole [], { s with array := some (.whole []) }) else none := by
  have hcontent : s.content see = [] := h.content
  unfold Snapshot.readSegment?
  split
  · cases ha : s.array with
    | some seg =>
        have hseg := h.array seg ha
        subst hseg
        simp only
        rw [← ha]
    | none =>
        rcases h.origin with ⟨id, v, ho⟩ | ho | ho
        · simp [ho, hcontent]
        · simp [ho]
        · simp [ho, hcontent]
  · rfl

theorem readArray? (h : s.Blank) : s.readArray? see =
    if s.isCurrent see then some ([], { s with array := some (.whole []) }) else none := by
  rw [Snapshot.readArray?, h.readSegment?]
  by_cases hc : s.isCurrent see = true
  · rw [if_pos hc, if_pos hc]
    rfl
  · rw [if_neg hc, if_neg hc]

theorem readText? (h : s.Blank) : s.readText? see =
    if s.isCurrent see then some ("", { s with text := some "" }) else none := by
  have hcontent : s.content see = [] := h.content
  have hempty : CodeUnit.decode [] = "" := by decide
  unfold Snapshot.readText?
  split
  · cases ht : s.text with
    | some t =>
        have hblank := h.text t ht
        subst hblank
        simp only
        rw [← ht]
    | none =>
        cases ha : s.array with
        | some seg =>
            have hseg := h.array seg ha
            subst hseg
            simp [hempty]
        | none => rcases h.origin with ⟨id, v, ho⟩ | ho | ho <;> simp [ho, hcontent, hempty]
  · rfl

/-- Freezing a current snapshot without content leaves one without content. -/
theorem freeze? (h : s.Blank) (hc : s.isCurrent see = true) :
    ∃ s', s.freeze? see = some s' ∧ s'.Blank ∧ s'.isFrozen = true := by
  have hcontent : s.content see = [] := h.content
  unfold Snapshot.freeze?
  split
  · next hf => exact ⟨s, rfl, h, hf⟩
  · cases ha : s.array with
    | some seg =>
        have hseg := h.array seg ha
        subst hseg
        exact ⟨_, rfl, ⟨.inr (.inl rfl), fun seg hseg => by cases hseg; rfl, h.text⟩, rfl⟩
    | none =>
        cases ht : s.text with
        | some t =>
            have hblank := h.text t ht
            subst hblank
            exact ⟨_, rfl, ⟨.inr (.inr rfl), fun seg hseg => (nomatch hseg),
              fun t ht => by cases ht; rfl⟩, rfl⟩
        | none =>
            rw [hcontent]
            exact ⟨_, rfl, ⟨.inr (.inl rfl), fun seg hseg => by cases hseg; rfl,
              fun t ht => nomatch ht⟩, rfl⟩

theorem read (h : s.Blank) (hr : Read see s s') : s'.Blank := by
  cases hr with
  | none => exact h
  | segment hr =>
      rw [h.readSegment?] at hr
      split at hr <;> cases hr
      exact h.with_array
  | array hr =>
      rw [h.readArray?] at hr
      split at hr <;> cases hr
      exact h.with_array
  | text hr =>
      rw [h.readText?] at hr
      split at hr <;> cases hr
      exact h.with_text
  | freeze hr =>
      by_cases hc : s.isCurrent see = true
      · obtain ⟨s₁, hs₁, hblank, -⟩ := h.freeze? hc
        rw [hr] at hs₁
        cases hs₁
        exact hblank
      · rw [Snapshot.freeze?] at hr
        split at hr
        · cases hr
          exact h
        · cases hr

end Blank

end Snapshot

/-! ## §2. The age of snapshots. -/

namespace Workspace

variable {w w' : Workspace} {id : BuilderId} {sid : SnapshotId} {s₀ : Snapshot} {st : Step}
  {K : BuilderId → Nat}

/-- How often the version of a builder moves on in a step. -/
def moves (id : BuilderId) (w : Workspace) (st : Step) : Nat :=
  (((w.after st).see id).version - (w.see id).version).toNat

theorem clears_snoc (id : BuilderId) (w : Workspace) (steps : List Step) (st : Step) :
    clears id w (steps ++ [st]) = clears id w steps + moves id (w.run steps) st := by
  rw [clears_append]
  rfl

theorem version_after (id : BuilderId) (w : Workspace) (st : Step) :
    ((w.after st).see id).version = (w.see id).version + UInt64.ofNat (moves id w st) :=
  version_run id [st] w

/-- The version of a builder is that of each of its snapshots, moved on `K` times at
most.  If it did not move on and the builder is idle, the snapshot is blank. -/
def Dated (K : BuilderId → Nat) (w : Workspace) : Prop :=
  ∀ sid s id v n, w.snapshotAt? sid = some s → s.origin = .bound id v n →
    ∃ j, j ≤ K id ∧ (w.see id).version = v + UInt64.ofNat j ∧ (w.Idle id → j = 0 → s.Blank)

/-- A builder that a step makes idle has moved on. -/
theorem Retires.idle_of_still (h : Retires w (w.after st)) (hw : (w.after st).Consistent)
    (hid : (w.after st).Idle id) (hm : moves id w st = 0) : w.Idle id := by
  rcases h id hid with hidle | ⟨b, hb, hv⟩
  · exact hidle
  · have hsee := version_after id w st
    rw [hm, see_of_builderAt? hb, (hw id b hb).version, hv] at hsee
    exact absurd hsee (by grind)

theorem Dated.after (h : Dated K w) (ho : w.Owned) (hw : w.Consistent) (st : Step) :
    Dated (fun id => K id + moves id w st) (w.after st) := by
  have hw' := hw.after st
  have hretires := (ho.after hw st).2
  have hturned := turned_after w st
  -- A snapshot that is bound to the present version and length.
  have hpresent (s : Snapshot) (id : BuilderId) (v : UInt64) (n : Nat)
      (hs : s.origin = .bound id v n) (hv : (w.see id).version = v) (hn : (w.see id).length = n)
      (ha : s.array = none) (ht : s.text = none) :
      ∃ j, j ≤ K id + moves id w st ∧ ((w.after st).see id).version = v + UInt64.ofNat j ∧
        ((w.after st).Idle id → j = 0 → s.Blank) := by
    refine ⟨moves id w st, by omega, by rw [version_after, hv], fun hid hm => ?_⟩
    have hidle := hretires.idle_of_still hw' hid hm
    rw [ho.length_of_idle hw hidle] at hn
    subst hn
    exact ⟨.inl ⟨id, v, hs⟩, fun seg hseg => (nomatch ha.symm.trans hseg),
      fun t hx => nomatch ht.symm.trans hx⟩
  intro sid s id v n hs hor
  cases hs₀ : w.snapshotAt? sid with
  | none =>
      obtain ⟨ha, ht, hbound⟩ := hturned.new sid s hs₀ hs
      obtain ⟨b, hb, hv, hn⟩ := hbound id v n hor
      have hsee := see_of_builderAt? hb
      have hc := hw id b hb
      exact hpresent s id v n hor (by rw [hsee, hc.version, hv]) (by rw [hsee, hc.length, hn]) ha ht
  | some s₀ =>
      obtain ⟨s₁, hs₁, hr⟩ := hturned.old sid s₀ hs₀
      rw [hs] at hs₁
      cases hs₁
      -- The snapshot was bound to this version before the step, or is bound to it anew.
      have hkept (hor₀ : s₀.origin = .bound id v n) (hblank : s₀.Blank → s.Blank) :
          ∃ j, j ≤ K id + moves id w st ∧ ((w.after st).see id).version = v + UInt64.ofNat j ∧
            ((w.after st).Idle id → j = 0 → s.Blank) := by
        obtain ⟨j, hj, hv, hidle⟩ := h sid s₀ id v n hs₀ hor₀
        refine ⟨j + moves id w st, by omega, ?_, fun hid hm => ?_⟩
        · rw [version_after, hv, UInt64.ofNat_add, UInt64.add_assoc]
        · exact hblank (hidle (hretires.idle_of_still hw' hid (by omega)) (by omega))
      rcases hr with hread | ⟨-, hrec⟩
      · rcases hread.origin with he | hn
        · exact hkept (he ▸ hor) fun hb => hb.read hread
        · rw [Snapshot.boundTo?, hor] at hn
          cases hn
      · obtain ⟨id', v', n', ho', hs'⟩ := recycle?_eq_some hrec
        rcases hs' with ⟨rfl, -⟩ | rfl
        · exact hkept hor fun hb => hb
        · cases hor
          exact hpresent _ id _ _ rfl rfl rfl rfl rfl

/-- **In every session the snapshots are as old as the clears since they were taken.** -/
theorem dated_run (steps : List Step) : Dated (fun id => clears id {} steps) (run {} steps) := by
  induction steps using List.reverseRecOn with
  | nil =>
      intro sid s id v n hs
      simp [snapshotAt?] at hs
  | append_singleton steps st ih =>
      have hafter := ih.after (owned_run steps) (consistent_run steps) st
      rw [run_snoc]
      simpa only [clears_snoc] using hafter

/-! ## §3. Snapshots that names hold. -/

theorem snapshotNames_nameBuilder (w : Workspace) (name : String) (id : BuilderId) :
    (w.nameBuilder name id).snapshotNames = w.snapshotNames := by
  obtain ⟨tenants, he⟩ := nameBuilder_eq w name id
  rw [he]

theorem snapshotNames_takeFrom (w : Workspace) (p : String) (pool : Pool BuilderId) :
    (w.takeFrom p pool).2.snapshotNames = w.snapshotNames := by
  obtain ⟨tenants, pools, he⟩ := takeFrom_eq w p pool
  rw [he]

theorem snapshotNames_giveBackTo (w : Workspace) (p : String) (pool : Pool BuilderId)
    (id : BuilderId) : (w.giveBackTo p pool id).snapshotNames = w.snapshotNames := by
  obtain ⟨tenants, pools, he⟩ := giveBackTo_eq w p pool id
  rw [he]

/-- The snapshot exists. -/
def Found (w : Workspace) (sid : SnapshotId) : Prop := ∃ s, w.snapshotAt? sid = some s

theorem isShared_eq (w : Workspace) (id : BuilderId) : w.isShared id =
    w.snapshotNames.values.any fun i => (w.snapshotAt? i).bind (·.boundTo?) = some id := by
  unfold isShared
  congr 1
  funext i
  unfold snapshotAt?
  cases w.snapshots[i.index]? <;> simp

theorem found_addSnapshot (w : Workspace) (s : Snapshot) :
    (w.addSnapshot s).2.Found (w.addSnapshot s).1 :=
  ⟨s, by simp [snapshotAt?, addSnapshot]⟩

theorem found_takeSnapshot (w : Workspace) (id : BuilderId) (t : Tenant) :
    (w.takeSnapshot id t).2.Found (w.takeSnapshot id t).1 := by
  unfold takeSnapshot
  split
  · next sid s hr =>
      obtain ⟨-, -, s₀, hs₀, -⟩ := reusable?_eq_some hr
      exact ⟨s, by rw [snapshotAt?_setSnapshot, if_pos rfl, hs₀]; rfl⟩
  · exact found_addSnapshot w _

/-- The snapshot gets a name: it is a new one with content of its own, or the step takes it of
a builder. -/
def Comes (w : Workspace) (st : Step) (w' : Workspace) (sid : SnapshotId) : Prop :=
  (∃ s, w'.snapshotAt? sid = some s ∧ s.boundTo? = none) ∨
    ∃ b keep v, st = .snap b keep ∧ w.builder b = .ok v ∧ sid = (w.takeSnapshot v.1 v.2).1 ∧
      w'.snapshotAt? = (w.takeSnapshot v.1 v.2).2.snapshotAt?

theorem Comes.found (h : Comes w st w' sid) : w'.Found sid := by
  rcases h with ⟨s, hs, -⟩ | ⟨b, keep, v, -, -, rfl, hs⟩
  · exact ⟨s, hs⟩
  · rw [Found, hs]
    exact found_takeSnapshot w v.1 v.2

/-- A step gives names to snapshots that had a name before, and to those that come with it. -/
theorem held_step {r : Reply} (h : w.step st = .ok (r, w')) (sid : SnapshotId)
    (hheld : sid ∈ w'.snapshotNames.values) :
    sid ∈ w.snapshotNames.values ∨ Comes w st w' sid := by
  have hsame (hn : w'.snapshotNames = w.snapshotNames) :
      sid ∈ w.snapshotNames.values ∨ Comes w st w' sid := .inl (hn ▸ hheld)
  have hadded (name : String) (s : Snapshot) (hs : s.boundTo? = none)
      (hw' : w' = w.addSnapshotNamed name s) :
      sid ∈ w.snapshotNames.values ∨ Comes w st w' sid := by
    subst hw'
    rcases Table.mem_values_set hheld with rfl | hold
    · exact .inr (.inl ⟨s, by simp [snapshotAt?, addSnapshotNamed, addSnapshot, nameSnapshot], hs⟩)
    · exact .inl hold
  cases st with
  | newBuilder b o => cases h; exact hsame (snapshotNames_nameBuilder _ b _)
  | borrow b memory policy => cases h; exact hsame (snapshotNames_nameBuilder _ b _)
  | dropBuilder b =>
      obtain ⟨id, -, h⟩ := ok_of_bind h
      cases h
      obtain ⟨tenants, he⟩ := disposeBuilder_eq (w.unnameBuilder b) id
      exact hsame (by rw [he]; rfl)
  | edit name e =>
      obtain ⟨v, -, -, hedit⟩ := edit_eq_ok h
      obtain ⟨tenants, snapshots, rfl⟩ := edit_cases hedit
      exact .inl hheld
  | snap b keep =>
      obtain ⟨v, hv, h⟩ := ok_of_bind h
      cases h
      obtain ⟨tenants, snapshots, he⟩ := takeSnapshot_eq w v.1 v.2
      rcases Table.mem_values_set hheld with rfl | hold
      · exact .inr (.inr ⟨b, keep, v, rfl, hv, rfl, rfl⟩)
      · have hnames : (w.takeSnapshot v.1 v.2).2.snapshotNames = w.snapshotNames := by
          rw [he]
        exact .inl (hnames ▸ hold)
  | ofUnits s us => cases h; exact hadded s _ rfl rfl
  | ofText s t => cases h; exact hadded s _ rfl rfl
  | ofSegment s us start length =>
      simp only [step] at h
      split at h <;> cases h
      exact hadded s _ rfl rfl
  | clone s source =>
      obtain ⟨v, hv, h⟩ := ok_of_bind h
      cases h
      rcases Table.mem_values_set hheld with rfl | hold
      · exact .inl (Table.mem_values_of_get? (snapshot_eq_ok hv).1)
      · exact .inl hold
  | dropSnapshot s =>
      obtain ⟨_, _, h⟩ := ok_of_bind h
      cases h
      exact .inl (Table.mem_values_erase hheld)
  | look s l =>
      obtain ⟨v, _, h⟩ := ok_of_bind h
      obtain ⟨snapshots, he⟩ := look_eq w v.1 v.2 l
      rw [Except.ok.inj h] at he
      subst he
      exact hsame rfl
  | newPool p o =>
      cases h
      refine hsame ?_
      split
      · next old _ =>
          obtain ⟨tenants, he⟩ := disposeBuilders_eq old.idle (w.setPool p (.new o))
          rw [he]
          rfl
      · rfl
  | take p b =>
      obtain ⟨pool, _, h⟩ := ok_of_bind h
      cases h
      exact hsame ((snapshotNames_nameBuilder _ b _).trans (snapshotNames_takeFrom w p pool))
  | giveBack p b =>
      obtain ⟨pool, _, h⟩ := ok_of_bind h
      obtain ⟨id, _, h⟩ := ok_of_bind h
      cases h
      exact hsame (snapshotNames_giveBackTo _ p pool id)
  | rent p t keep =>
      obtain ⟨pool, pool₁, b, -, -, -, -, rfl⟩ := rent_eq_ok h
      refine hsame (Eq.trans ?_ (snapshotNames_takeFrom w p pool))
      cases keep with
      | some name => exact snapshotNames_nameBuilder _ name _
      | none => exact snapshotNames_giveBackTo _ p pool₁ _
  | allocate g capacity => cases h; exact .inl hheld
  | adopt g memory => cases h; exact .inl hheld
  | access g a =>
      obtain ⟨_, _, h⟩ := ok_of_bind h
      obtain ⟨_, rfl⟩ := access_cases h
      exact .inl hheld

theorem Found.after (h : w.Found sid) (st : Step) : (w.after st).Found sid := by
  obtain ⟨s, hs⟩ := h
  obtain ⟨s', hs', -⟩ := (turned_after w st).old sid s hs
  exact ⟨s', hs'⟩

/-- **The names of a session hold snapshots that exist.** -/
theorem found_run (steps : List Step) :
    ∀ sid ∈ (run {} steps).snapshotNames.values, (run {} steps).Found sid := by
  induction steps using List.reverseRecOn with
  | nil =>
      intro sid hsid
      cases hsid
  | append_singleton steps st ih =>
      intro sid hsid
      rw [run_snoc] at hsid ⊢
      cases hs : (run {} steps).step st with
      | error e =>
          rw [after, hs] at hsid ⊢
          exact ih sid hsid
      | ok o =>
          have hw' := after_of_step hs
          rw [hw'] at hsid ⊢
          rcases held_step hs sid hsid with hold | hcomes
          · exact hw' ▸ (ih sid hold).after st
          · exact hcomes.found

end Workspace

end ValueText
