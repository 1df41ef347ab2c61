/-
  ValueText.Proofs.Buffer.Disposal — the memory of a disposed builder.

  A builder that is disposed by its name keeps the name.  Whether its memory is released is
  decided then and there: it is, unless a name holds a snapshot that is bound to the builder.
  Nothing asks again.  A snapshot that lets go later, because it is dropped or made
  independent of the builder, leaves the memory where it is, and disposing once more does
  nothing; so the memory of a disposed builder can be read and written when nobody refers to
  it any more.

  Main results:

    • `named_step`      a builder that has a name after a step was left alone under it, or
                        edited, or it got the name alive;
    • `shared_after`    a builder is shared after a step only if it was before it, or the step
                        takes a snapshot of it;
    • `disposal`        the step that disposed a builder, and what it left;
    • `released_at_disposal`  the memory of a disposed builder is released exactly if no held
                        snapshot was bound to it at that step.

  The last comes with the session in which the last snapshot lets go too late.
-/
import ValueText.Proofs.Buffer.Staleness

namespace ValueText

/-! ## §1. Released memory. -/

namespace Region

theorem capacity_release (r : Region) : r.release.capacity = 0 := by
  unfold release
  cases r.ownership <;> rfl

theorem isReleased_release (r : Region) : r.release.isReleased = true := by
  unfold release
  cases r.ownership <;> rfl

theorem load?_eq_none_iff (r : Region) (i : Nat) : r.load? i = none ↔ r.capacity ≤ i := by
  rw [load?, List.getElem?_eq_none_iff, length_units]

end Region

namespace Builder

/-- Disposing leaves the memory to those who share it, and releases it otherwise. -/
theorem region_dispose {b : Builder} (h : b.disposed = false) (shared : Bool) :
    (b.dispose shared).region = if shared then b.region else b.region.release := by
  rw [dispose, if_neg (by rw [h]; decide)]
  cases shared <;> rfl

end Builder

namespace Workspace

variable {w w' : Workspace} {id id' : BuilderId} {name : String} {st : Step} {b : Builder}

/-- Every access to the memory of the named builder is refused. -/
def Sealed (w : Workspace) (name : String) : Prop :=
  ∀ i u, w.step (.edit name (.get i)) = .error .outOfRange ∧
    w.step (.edit name (.set i u)) = .error .outOfRange

theorem sealed_iff {t : Tenant} (h : w.builder name = .ok (id, t)) :
    w.Sealed name ↔ t.builder.region.capacity = 0 := by
  have hget (i : Nat) : w.step (.edit name (.get i)) = .error .outOfRange ↔
      t.builder.region.capacity ≤ i := by
    rw [step_edit h, edit, Builder.get?, ← Region.load?_eq_none_iff]
    cases t.builder.region.load? i <;> simp
  constructor
  · intro hsealed
    exact Nat.le_zero.mp ((hget 0).mp (hsealed 0 0).1)
  · intro hzero i u
    refine ⟨(hget i).mpr (by omega), ?_⟩
    rw [step_edit h, edit, Builder.set?, Region.store?, if_neg (by omega)]
    rfl

/-- An access to the memory of the named builder is answered. -/
theorem step_get {t : Tenant} (h : w.builder name = .ok (id, t)) {i : Nat}
    (hi : i < t.builder.region.capacity) :
    (∃ u, w.step (.edit name (.get i)) = .ok (.unit u, w)) ∧
      ∀ u, ∃ w', w.step (.edit name (.set i u)) = .ok (.done, w') := by
  constructor
  · rw [step_edit h, edit, Builder.get?]
    cases hu : t.builder.region.load? i with
    | none => exact absurd ((Region.load?_eq_none_iff _ i).mp hu) (by omega)
    | some u => exact ⟨u, rfl⟩
  · intro u
    rw [step_edit h, edit, Builder.set?, Region.store?, if_pos hi]
    exact ⟨_, rfl⟩

/-! ## §2. Builders that keep their names. -/

/-- The builder is there and was not disposed. -/
def Living (w : Workspace) (id : BuilderId) : Prop :=
  ∃ b, w.builderAt? id = some b ∧ b.disposed = false

theorem builderAt?_disposeBuilder_of_ne (h : id' ≠ id) :
    (w.disposeBuilder id).builderAt? id' = w.builderAt? id' := by
  cases hb : w.builderAt? id with
  | none => simp only [disposeBuilder, hb]
  | some b => rw [builderAt?_disposeBuilder hb, builderAt?_setBuilder, if_neg h]

/-- Only the builder that had the name before is disposed. -/
theorem builderAt?_nameBuilder (h : w.builderNames.get? name ≠ some id) (id' : BuilderId) :
    (w.nameBuilder name id').builderAt? id = w.builderAt? id := by
  unfold nameBuilder
  split
  · next old hold => exact builderAt?_disposeBuilder_of_ne fun he => h (he ▸ hold)
  · rfl

theorem builderAt?_disposeBuilders (ids : List BuilderId) : ∀ {w : Workspace}, id ∉ ids →
    (ids.foldl (fun w i => w.disposeBuilder i) w).builderAt? id = w.builderAt? id := by
  induction ids with
  | nil => intro w _; rfl
  | cons i rest ih =>
      intro w h
      rw [List.mem_cons, not_or] at h
      rw [List.foldl_cons, ih h.2, builderAt?_disposeBuilder_of_ne h.1]

theorem builderAt?_giveBackTo_of_ne {p : String} {pool : Pool BuilderId} (h : id' ≠ id) :
    (w.giveBackTo p pool id).builderAt? id' = w.builderAt? id' := by
  have hset (b : Builder) : (w.setBuilder id b).builderAt? id' = w.builderAt? id' := by
    rw [builderAt?_setBuilder, if_neg h]
  unfold giveBackTo
  split
  · rfl
  · next b hb =>
      split
      · rfl
      · exact builderAt?_disposeBuilder_of_ne h
      · exact (builderAt?_disposeBuilder_of_ne h).trans (hset b.clear)
      · exact hset b.clear

theorem builderNames_giveBackTo (w : Workspace) (p : String) (pool : Pool BuilderId)
    (id : BuilderId) : (w.giveBackTo p pool id).builderNames = w.builderNames := by
  obtain ⟨tenants, pools, he⟩ := giveBackTo_eq w p pool id
  rw [he]

/-- The builder that has the name had it before and was left alone, or it is alive. -/
def KeptOrLiving (w w' : Workspace) (name : String) (id : BuilderId) : Prop :=
  (w.builderNames.get? name = some id ∧ w'.builderAt? id = w.builderAt? id) ∨ w'.Living id

theorem KeptOrLiving.of_eq (hn : w'.builderNames = w.builderNames)
    (hb : ∀ id, w'.builderAt? id = w.builderAt? id) (h : w'.builderNames.get? name = some id) :
    KeptOrLiving w w' name id := .inl ⟨hn ▸ h, hb id⟩

/-- An unowned builder that is alive gets a name. -/
theorem kept_nameBuilder {i : BuilderId} {n : String} (h : w.Owned) (hi : w.Unowned i)
    (hliving : w.Living i) (hname : (w.nameBuilder n i).builderNames.get? name = some id) :
    KeptOrLiving w (w.nameBuilder n i) name id := by
  obtain ⟨tenants, he⟩ := nameBuilder_eq w n i
  have hget : (w.builderNames.set n i).get? name = some id := by
    rw [he] at hname
    exact hname
  rw [Table.get?_set] at hget
  split at hget
  · cases hget
    obtain ⟨b, hb, halive⟩ := hliving
    exact .inr ⟨b, (builderAt?_nameBuilder (hi.unnamed n) _).trans hb, halive⟩
  · next hne =>
      exact .inl ⟨hget, builderAt?_nameBuilder (fun hn => hne (h.named n name id hn hget)) i⟩

theorem KeptOrLiving.trans {w₁ : Workspace} (h : KeptOrLiving w₁ w' name id)
    (hn : w₁.builderNames = w.builderNames)
    (hb : ∀ id, w.builderNames.get? name = some id → w₁.builderAt? id = w.builderAt? id) :
    KeptOrLiving w w' name id := by
  rcases h with ⟨hname, hat⟩ | hliving
  · rw [hn] at hname
    exact .inl ⟨hname, hat.trans (hb id hname)⟩
  · exact .inr hliving

theorem builderAt?_addBuilder_of_named (h : w.Owned) (b : Builder)
    (hname : w.builderNames.get? name = some id) :
    (w.addBuilder b).2.builderAt? id = w.builderAt? id := by
  obtain ⟨b', hb'⟩ := h.there name id hname
  have hlt : id.index < w.tenants.size := by
    rw [builderAt?, Option.map_eq_some_iff] at hb'
    obtain ⟨t, ht, -⟩ := hb'
    exact (Array.getElem?_eq_some_iff.mp ht).1
  simp only [builderAt?, addBuilder, Array.getElem?_push, if_neg (Nat.ne_of_lt hlt)]

theorem kept_addNamed {n : String} (h : w.Owned) (halive : b.disposed = false)
    (hname : (w.addNamed n b).2.builderNames.get? name = some id) :
    KeptOrLiving w (w.addNamed n b).2 name id := by
  obtain ⟨howned, hunowned, hb⟩ := h.addBuilder b
  exact (kept_nameBuilder howned hunowned ⟨b, hb, halive⟩ hname).trans rfl
    fun id hid => builderAt?_addBuilder_of_named h b hid

theorem kept_giveBackTo {p : String} {pool : Pool BuilderId} {i : BuilderId}
    (hi : ∀ n, w.builderNames.get? n ≠ some i)
    (hname : (w.giveBackTo p pool i).builderNames.get? name = some id) :
    KeptOrLiving w (w.giveBackTo p pool i) name id := by
  rw [builderNames_giveBackTo] at hname
  exact .inl ⟨hname, builderAt?_giveBackTo_of_ne fun he => hi name (he ▸ hname)⟩

/-- **A step other than an edit** leaves a builder alone that has a name after it, unless it has
just given it the name. -/
theorem named_step {r : Reply} (h : w.Owned) (hs : w.step st = .ok (r, w'))
    (hedit : ∀ n e, st ≠ .edit n e) (hname : w'.builderNames.get? name = some id) :
    KeptOrLiving w w' name id := by
  cases st with
  | edit n e => exact absurd rfl (hedit n e)
  | newBuilder n o => cases hs; exact kept_addNamed h rfl hname
  | borrow n memory policy => cases hs; exact kept_addNamed (b := .borrowing memory policy) h rfl hname
  | dropBuilder n =>
      obtain ⟨i, hi, hs⟩ := ok_of_bind hs
      cases hs
      have hunowned := h.unowned_of_unnamed (builderId_eq_ok hi)
      obtain ⟨tenants, he⟩ := disposeBuilder_eq (w.unnameBuilder n) i
      have hn : (w.unnameBuilder n).builderNames.get? name = some id := by
        rw [he] at hname
        exact hname
      exact .inl ⟨Table.get?_of_erase hn, builderAt?_disposeBuilder_of_ne
        (w := w.unnameBuilder n) fun hid => hunowned.unnamed name (hid ▸ hn)⟩
  | snap n keep =>
      obtain ⟨v, -, hs⟩ := ok_of_bind hs
      cases hs
      obtain ⟨tenants, snapshots, he⟩ := takeSnapshot_eq w v.1 v.2
      have hn : (w.takeSnapshot v.1 v.2).2.builderNames = w.builderNames := by rw [he]
      exact .of_eq hn (fun i => builderAt?_takeSnapshot w v.1 i v.2) hname
  | ofUnits s us => cases hs; exact .of_eq rfl (fun _ => rfl) hname
  | ofText s t => cases hs; exact .of_eq rfl (fun _ => rfl) hname
  | ofSegment s us start length =>
      simp only [step] at hs
      split at hs <;> cases hs
      exact .of_eq rfl (fun _ => rfl) hname
  | clone s source =>
      obtain ⟨_, _, hs⟩ := ok_of_bind hs
      cases hs
      exact .of_eq rfl (fun _ => rfl) hname
  | dropSnapshot s =>
      obtain ⟨_, _, hs⟩ := ok_of_bind hs
      cases hs
      exact .of_eq rfl (fun _ => rfl) hname
  | look s l =>
      obtain ⟨v, _, hs⟩ := ok_of_bind hs
      obtain ⟨snapshots, he⟩ := look_eq w v.1 v.2 l
      rw [Except.ok.inj hs] at he
      subst he
      exact .of_eq rfl (fun _ => rfl) hname
  | newPool p o =>
      cases hp : w.poolNames.get? p with
      | none =>
          simp only [step, hp] at hs
          cases hs
          exact .of_eq rfl (fun _ => rfl) hname
      | some old =>
          simp only [step, hp] at hs
          cases hs
          obtain ⟨tenants, he⟩ := disposeBuilders_eq old.idle (w.setPool p (.new o))
          have hn : w.builderNames.get? name = some id := by
            rw [he] at hname
            exact hname
          -- The builders that waited in the pool have no names.
          exact .inl ⟨hn, builderAt?_disposeBuilders old.idle (w := w.setPool p (.new o))
            fun hid => h.apart name id hn ⟨p, old, hp, hid⟩⟩
  | take p n =>
      obtain ⟨pool, hpool, hs⟩ := ok_of_bind hs
      cases hs
      obtain ⟨howned, hunowned, b', hb', hready⟩ := h.takeFrom (pool_eq_ok hpool)
      exact (kept_nameBuilder howned hunowned ⟨b', hb', hready.disposed⟩ hname).trans
        (builderNames_takeFrom w p pool) fun id hid => builderAt?_takeFrom (h.there name id hid)
  | giveBack p n =>
      obtain ⟨pool, hpool, hs⟩ := ok_of_bind hs
      obtain ⟨i, hi, hs⟩ := ok_of_bind hs
      cases hs
      have hunowned := h.unowned_of_unnamed (builderId_eq_ok hi)
      rcases kept_giveBackTo hunowned.unnamed hname with ⟨hn, hb⟩ | hliving
      · exact .inl ⟨Table.get?_of_erase hn, hb⟩
      · exact .inr hliving
  | rent p t keep =>
      obtain ⟨pool, pool₁, b, hpool, -, hb, -, rfl⟩ := rent_eq_ok hs
      obtain ⟨howned, hunowned, b', hb', hready⟩ := h.takeFrom (pool_eq_ok hpool)
      rw [hb] at hb'
      cases hb'
      -- The builder as it is when it goes to its next owner.
      have hset := howned.setBuilder hunowned.busy (b.appendText t).2
      have hfree : ((w.takeFrom p pool).2.setBuilder (w.takeFrom p pool).1
          (b.appendText t).2).Unowned (w.takeFrom p pool).1 := ⟨hunowned.unnamed, hunowned.busy⟩
      have hliving : ((w.takeFrom p pool).2.setBuilder (w.takeFrom p pool).1
          (b.appendText t).2).Living (w.takeFrom p pool).1 := by
        refine ⟨(b.appendText t).2, ?_, (Builder.Framed.appendUnits b _).disposed.trans hready.disposed⟩
        rw [builderAt?_setBuilder, if_pos rfl, hb]
        rfl
      have hold (i : BuilderId) (hi : w.builderNames.get? name = some i) :
          ((w.takeFrom p pool).2.setBuilder (w.takeFrom p pool).1
            (b.appendText t).2).builderAt? i = w.builderAt? i := by
        rw [builderAt?_setBuilder, if_neg, builderAt?_takeFrom (h.there name i hi)]
        rintro rfl
        exact hunowned.unnamed name (by rw [builderNames_takeFrom]; exact hi)
      cases keep with
      | some n =>
          exact (kept_nameBuilder hset hfree hliving hname).trans (builderNames_takeFrom w p pool) hold
      | none =>
          exact (kept_giveBackTo hfree.unnamed hname).trans (builderNames_takeFrom w p pool) hold
  | allocate g capacity => cases hs; exact .of_eq rfl (fun _ => rfl) hname
  | adopt g memory => cases hs; exact .of_eq rfl (fun _ => rfl) hname
  | access g a =>
      obtain ⟨_, _, hs⟩ := ok_of_bind hs
      obtain ⟨_, rfl⟩ := access_cases hs
      exact .of_eq rfl (fun _ => rfl) hname

/-! ## §3. Shared builders. -/

/-- The step takes a snapshot of the builder. -/
def Step.Snaps (w : Workspace) (id : BuilderId) : Step → Prop
  | .snap n _ => w.builderNames.get? n = some id
  | _ => False

theorem isShared_iff : w.isShared id = true ↔ ∃ sid ∈ w.snapshotNames.values, ∃ s,
    w.snapshotAt? sid = some s ∧ s.boundTo? = some id := by
  rw [isShared_eq, List.any_eq_true]
  simp only [decide_eq_true_eq, Option.bind_eq_some_iff]

/-- **Only a snapshot that is taken of a builder makes it shared.** -/
theorem shared_after {K : BuilderId → UInt64 → Nat → List CodeUnit → Prop} (hf : Faithful K w)
    (hw : w.Consistent) (hfound : ∀ sid ∈ w.snapshotNames.values, w.Found sid)
    (hsnaps : ¬ st.Snaps w id) (h : (w.after st).isShared id = true) : w.isShared id = true := by
  cases hs : w.step st with
  | error f => rwa [after, hs] at h
  | ok o =>
      have hw' := after_of_step hs
      obtain ⟨sid, hheld, s', hs', hbound⟩ := isShared_iff.mp h
      rw [hw'] at hheld hs'
      rcases held_step hs sid hheld with hold | ⟨s, hfree, hn⟩ | ⟨n, keep, v, rfl, hv, rfl, hsame⟩
      · obtain ⟨s, hat⟩ := hfound sid hold
        obtain ⟨s₁, hs₁, hr⟩ := (turned_after w st).old sid s hat
        rw [hw', hs'] at hs₁
        cases hs₁
        -- The snapshot may have been read or moved, but it is bound to the same builder.
        refine isShared_iff.mpr ⟨sid, hold, s, hat, ?_⟩
        rcases hr with hread | ⟨-, hrec⟩
        · rcases hread.origin with he | hn
          · rw [Snapshot.boundTo?, ← he]
            exact hbound
          · rw [hn] at hbound
            cases hbound
        · rw [← boundTo?_recycle? hrec]
          exact hbound
      · rw [hs'] at hfree
        cases hfree
        rw [hn] at hbound
        cases hbound
      · -- A snapshot that is taken is bound to the builder that it is taken of.
        obtain ⟨hname, ht⟩ := builder_eq_ok hv
        obtain ⟨s, hs₁, ho⟩ := snapshotAt?_takeSnapshot hf hw ht
        rw [← hsame, hs'] at hs₁
        cases hs₁
        rw [Snapshot.boundTo?, ho] at hbound
        cases hbound
        exact absurd (builderId_eq_ok hname) hsnaps

/-! ## §4. Disposal. -/

/-- The disposal that a builder has behind it, when it was `b₀`: what it left of the memory, and
that the builder is not shared if it was not then and no snapshot was taken of it since. -/
structure Disposal (before later : List Step) (name : String) (id : BuilderId) (b₀ b : Builder) :
    Prop where
  named : (run {} before).builderNames.get? name = some id
  found : (run {} before).builderAt? id = some b₀
  alive : b₀.disposed = false
  ownership : b.region.ownership =
    (b₀.dispose ((run {} before).isShared id)).region.ownership
  capacity : b.region.capacity = (b₀.dispose ((run {} before).isShared id)).region.capacity
  shared : (∀ keep, .snap name keep ∉ later) →
    (run {} (before ++ .edit name .dispose :: later)).isShared id = true →
    (run {} before).isShared id = true

/-- A step leaves a disposal behind a disposed builder. -/
theorem Disposal.snoc {before later : List Step} {b₀ b' : Builder}
    (h : Disposal before later name id b₀ b)
    (hname : (run {} (before ++ .edit name .dispose :: later)).builderNames.get? name = some id)
    (hownership : b'.region.ownership = b.region.ownership)
    (hcapacity : b'.region.capacity = b.region.capacity) (st : Step) :
    Disposal before (later ++ [st]) name id b₀ b' := by
  refine ⟨h.named, h.found, h.alive, hownership.trans h.ownership, hcapacity.trans h.capacity,
    fun hnone hshared => ?_⟩
  rw [← List.cons_append, ← List.append_assoc, run_snoc] at hshared
  refine h.shared (fun keep hk => hnone keep (List.mem_append_left _ hk)) ?_
  refine shared_after (faithful_run _) (consistent_run _) (found_run _) ?_ hshared
  -- The builder has one name, and the step takes no snapshot by it.
  intro hsnaps
  cases st with
  | snap n keep =>
      have hn : n = name := (owned_run _).named n name id hsnaps hname
      subst hn
      exact hnone keep (List.mem_append_right _ List.mem_cons_self)
  | _ => exact hsnaps

/-- An edit after which a builder is disposed. -/
theorem disposed_edit {n : String} {e : Edit} {r : Reply} {b' : Builder} (h : w.Owned)
    (hs : w.step (.edit n e) = .ok (r, w')) (hname : w'.builderNames.get? name = some id)
    (hb' : w'.builderAt? id = some b') (hd : b'.disposed = true) :
    w.builderNames.get? name = some id ∧ ∃ b, w.builderAt? id = some b ∧
      (b.disposed = true ∧ b'.region.ownership = b.region.ownership ∧
          b'.region.capacity = b.region.capacity ∨
        b.disposed = false ∧ n = name ∧ e = .dispose ∧ b' = b.dispose (w.isShared id)) := by
  obtain ⟨v, hn, hv, hedit⟩ := edit_eq_ok hs
  obtain ⟨tenants, snapshots, he⟩ := edit_cases hedit
  have hname₀ : w.builderNames.get? name = some id := by
    rw [he] at hname
    exact hname
  refine ⟨hname₀, ?_⟩
  rw [builderAt?_edited hv hedit, builderAt?_setBuilder] at hb'
  by_cases hid : id = v.1
  · subst hid
    rw [if_pos rfl, hv] at hb'
    cases hb'
    refine ⟨v.2.builder, hv, ?_⟩
    by_cases hdispose : e = .dispose
    · subst hdispose
      cases halive : v.2.builder.disposed with
      | true =>
          have hkept : w.edited v.1 v.2.builder .dispose = v.2.builder := by
            rw [edited, Builder.dispose, if_pos halive]
          exact .inl ⟨rfl, by rw [hkept], by rw [hkept]⟩
      | false => exact .inr ⟨rfl, h.named n name v.1 (builderId_eq_ok hn) hname₀, rfl, rfl⟩
    · have hframed := framed_edited w v.1 v.2.builder hdispose
      exact .inl ⟨hframed.disposed ▸ hd, hframed.ownership, hframed.memory⟩
  · rw [if_neg hid] at hb'
    exact ⟨b', hb', .inl ⟨hd, rfl, rfl⟩⟩

/-- **A disposed builder that has a name after a step** was disposed before it and has kept its
memory, or the step disposes it by the name. -/
theorem disposed_step {r : Reply} {b' : Builder} (h : w.Owned) (hs : w.step st = .ok (r, w'))
    (hname : w'.builderNames.get? name = some id) (hb' : w'.builderAt? id = some b')
    (hd : b'.disposed = true) :
    w.builderNames.get? name = some id ∧ ∃ b, w.builderAt? id = some b ∧
      (b.disposed = true ∧ b'.region.ownership = b.region.ownership ∧
          b'.region.capacity = b.region.capacity ∨
        b.disposed = false ∧ st = .edit name .dispose ∧ b' = b.dispose (w.isShared id)) := by
  by_cases hedit : ∃ n e, st = .edit n e
  · obtain ⟨n, e, rfl⟩ := hedit
    obtain ⟨hname₀, b, hb, hbefore | ⟨halive, rfl, rfl, hdispose⟩⟩ := disposed_edit h hs hname hb' hd
    · exact ⟨hname₀, b, hb, .inl hbefore⟩
    · exact ⟨hname₀, b, hb, .inr ⟨halive, rfl, hdispose⟩⟩
  · rcases named_step h hs (fun n e he => hedit ⟨n, e, he⟩) hname with ⟨hname₀, hb⟩ | ⟨b, hb, halive⟩
    · exact ⟨hname₀, b', hb ▸ hb', .inl ⟨hd, rfl, rfl⟩⟩
    · rw [hb'] at hb
      cases hb
      rw [hd] at halive
      cases halive

/-- **A disposed builder that has a name was disposed by the name.** -/
theorem disposal (steps : List Step) : ∀ {name : String} {id : BuilderId} {b : Builder},
    (run {} steps).builderNames.get? name = some id → (run {} steps).builderAt? id = some b →
    b.disposed = true →
    ∃ before later b₀, steps = before ++ .edit name .dispose :: later ∧
      Disposal before later name id b₀ b := by
  induction steps using List.reverseRecOn with
  | nil => intro name id b hname; cases hname
  | append_singleton steps st ih =>
      intro name id b' hname hb' hd
      -- A builder that was disposed before the step has the disposal behind it already.
      have hagain {b : Builder} (hn : (run {} steps).builderNames.get? name = some id)
          (hb : (run {} steps).builderAt? id = some b) (hdisposed : b.disposed = true)
          (hownership : b'.region.ownership = b.region.ownership)
          (hcapacity : b'.region.capacity = b.region.capacity) :
          ∃ before later b₀, steps ++ [st] = before ++ .edit name .dispose :: later ∧
            Disposal before later name id b₀ b' := by
        obtain ⟨before, later, b₀, rfl, h⟩ := ih hn hb hdisposed
        exact ⟨before, later ++ [st], b₀, by simp, h.snoc hn hownership hcapacity st⟩
      rw [run_snoc] at hname hb'
      cases hs : (run {} steps).step st with
      | error f =>
          rw [after, hs] at hname hb'
          exact hagain hname hb' hd rfl rfl
      | ok o =>
          rw [after_of_step hs] at hname hb'
          obtain ⟨hname₀, b, hb, ⟨hdisposed, hownership, hcapacity⟩ | ⟨halive, rfl, rfl⟩⟩ :=
            disposed_step (owned_run steps) hs hname hb' hd
          · exact hagain hname₀ hb hdisposed hownership hcapacity
          · refine ⟨steps, [], b, rfl, hname₀, hb, halive, rfl, rfl, fun _ h => ?_⟩
            have hsnaps : ¬ (Step.edit name .dispose).Snaps (run {} steps) id := fun hf => hf
            rw [run_snoc] at h
            exact shared_after (faithful_run _) (consistent_run _) (found_run _) hsnaps h

/-- **The memory of a disposed builder is released exactly if nobody shared it when it was
disposed.**  A disposed builder that has a name in a session was disposed once, by the name,
when it was `b₀`.

1. Its memory is released exactly if no name held a snapshot then that was bound to it.
2. If it is, every access to it is refused.
3. If it is not, every place is read and written as before, whoever may refer to the builder
   now, and however often it was disposed again.
4. As long as no snapshot is taken of the disposed builder, its memory is there while a held
   snapshot is bound to it. -/
theorem released_at_disposal (steps : List Step) {name : String} {id : BuilderId} {b : Builder}
    (hname : (run {} steps).builderNames.get? name = some id)
    (hb : (run {} steps).builderAt? id = some b) (hd : b.disposed = true) :
    ∃ before later b₀, steps = before ++ .edit name .dispose :: later ∧
      (run {} before).builderNames.get? name = some id ∧
      (run {} before).builderAt? id = some b₀ ∧ b₀.disposed = false ∧
      (b.region.isReleased = true ↔ (run {} before).isShared id = false) ∧
      (b.region.isReleased = true → (run {} steps).Sealed name) ∧
      (b.region.isReleased = false → ∀ i < b₀.capacity,
        (∃ u, (run {} steps).step (.edit name (.get i)) = .ok (.unit u, run {} steps)) ∧
        ∀ u, ∃ w', (run {} steps).step (.edit name (.set i u)) = .ok (.done, w')) ∧
      ((∀ keep, .snap name keep ∉ later) → (run {} steps).isShared id = true →
        b.region.isReleased = false) := by
  obtain ⟨before, later, b₀, rfl, h⟩ := disposal steps hname hb hd
  obtain ⟨t, ht, rfl⟩ := builder_of_named hname hb
  have hwhole := whole_run before id b₀ h.found
  have hownership := h.ownership
  have hcapacity := h.capacity
  rw [Builder.region_dispose h.alive] at hownership hcapacity
  -- The two cases of the disposal: shared, or not.
  cases hshared : (run {} before).isShared id with
  | true =>
      rw [hshared, if_pos rfl] at hownership hcapacity
      have hkept : t.builder.region.isReleased = false := by
        rw [Region.isReleased, hownership]
        exact decide_eq_false (hwhole.unreleased h.alive)
      refine ⟨before, later, b₀, rfl, h.named, h.found, h.alive, ?_, ?_, fun _ i hi => ?_,
        fun _ _ => hkept⟩
      · rw [hkept, hshared]
        decide
      · intro hreleased
        rw [hkept] at hreleased
        cases hreleased
      · exact step_get ht (by rw [hcapacity, hwhole.alive h.alive]; exact hi)
  | false =>
      rw [hshared, if_neg Bool.false_ne_true] at hownership hcapacity
      have hreleased : t.builder.region.isReleased = true := by
        rw [Region.isReleased, hownership]
        exact b₀.region.isReleased_release
      refine ⟨before, later, b₀, rfl, h.named, h.found, h.alive, ?_, fun _ => ?_, ?_,
        fun hnone hnow => ?_⟩
      · rw [hreleased, hshared]
        decide
      · exact (sealed_iff ht).mpr (hcapacity.trans b₀.region.capacity_release)
      · intro hkept
        rw [hreleased] at hkept
        cases hkept
      · rw [h.shared hnone hnow] at hshared
        cases hshared

/-- A session that disposes a builder of which no snapshot is held, and takes one then. -/
def disposedUnread : List Step :=
  [.newBuilder "b" ⟨8, .error⟩, .edit "b" (.text "abc"), .edit "b" .dispose, .snap "b" "s",
   .edit "b" .dispose]

theorem released_at_disposal_unread : (run {} disposedUnread).Sealed "b" := by
  have hname : (run {} disposedUnread).builderNames.get? "b" = some ⟨0⟩ := rfl
  obtain ⟨before, later, b₀, -, -, -, -, -, hsealed, -, -⟩ :=
    released_at_disposal disposedUnread hname rfl rfl
  exact hsealed rfl

/-- A session in which the only snapshot of a builder is dropped after the builder was disposed,
and the builder is disposed again. -/
def droppedLate : List Step :=
  [.newBuilder "b" ⟨8, .error⟩, .edit "b" (.text "abc"), .snap "b" "s", .edit "b" .dispose,
   .dropSnapshot "s", .edit "b" .dispose]

/-- Nobody refers to the builder any more, and its memory is there. -/
theorem droppedLate_unreleased :
    (run {} droppedLate).builderNames.get? "b" = some ⟨0⟩ ∧
      ((run {} droppedLate).builderAt? ⟨0⟩).map (·.disposed) = some true ∧
      (run {} droppedLate).isShared ⟨0⟩ = false ∧
      ((run {} droppedLate).builderAt? ⟨0⟩).map (·.region.isReleased) = some false ∧
      (run {} droppedLate).step (.edit "b" (.get 0)) = .ok (.unit 0x61, run {} droppedLate) :=
  ⟨rfl, rfl, rfl, rfl, rfl⟩

end Workspace
end ValueText
