/-
  ValueText.Proofs.Buffer.Staleness — snapshots of content that was cleared.

  Clearing moves the version of a builder on, and so do disposing, dropping and
  returning it while it is alive.  A snapshot that was bound to it has an earlier version
  from then on.  It is never moved to the present one as long as a name holds it: a
  builder uses its last snapshot again only when nobody else does.

  A builder that is disposed already is not touched by disposing, dropping or returning
  it once more.  A snapshot that was taken in between can be read still.

  Main results:

    • `Step.Ends.moves`    a step that ends the content of a builder moves its version on;
    • `outdated_run`       a snapshot of an earlier version stays one;
    • `refused_for_good`   each read of it is refused, at all later times.
-/
import ValueText.Proofs.Buffer.Freezing
import ValueText.Proofs.Buffer.Retirement

namespace ValueText

/-! ## §1. Disposed builders. -/

namespace Builder

variable {b b' : Builder}

theorem disposed_dispose (b : Builder) (shared : Bool) : (b.dispose shared).disposed = true := by
  unfold dispose
  split
  · assumption
  · cases shared <;> rfl

theorem version_clear_ne (b : Builder) : b.clear.version ≠ b.version := by
  simp [clear]

/-- A builder that lost its life between two moments has another version. -/
theorem Handled.version_ne (h : Handled b b') (halive : b.disposed = false)
    (hdisposed : b'.disposed = true) : b'.version ≠ b.version := by
  intro hv
  obtain ⟨b₁, h₁, hr⟩ := h
  -- Appending moves no version and disposes nothing.
  have happ : b₁.version = b.version ∧ b₁.disposed = b.disposed := by
    rcases h₁ with rfl | ⟨s, rfl⟩
    · exact ⟨rfl, rfl⟩
    · exact ⟨(b.grown_appendText s).keeps.version, (Framed.appendUnits b _).disposed⟩
  have heq := hr.eq_of_version (hv.trans happ.1.symm)
  rw [heq, happ.2, halive] at hdisposed
  cases hdisposed

end Builder

theorem Snapshot.origin_of_boundTo? {s : Snapshot} {id : BuilderId} (h : s.boundTo? = some id) :
    ∃ v n, s.origin = .bound id v n := by
  unfold Snapshot.boundTo? at h
  split at h
  · next id' v n ho =>
      cases h
      exact ⟨v, n, ho⟩
  · cases h
  · cases h

/-- A snapshot that is not current is left alone by reads, and cannot be frozen. -/
theorem Snapshot.Read.eq_of_not_current {see : BuilderId → Published} {s s' : Snapshot}
    (h : Snapshot.Read see s s') (hc : s.isCurrent see = false) : s' = s := by
  have hfrozen : s.isFrozen = false := by
    cases hf : s.isFrozen with
    | false => rfl
    | true =>
        rw [Snapshot.isCurrent_of_isFrozen hf] at hc
        cases hc
  cases h with
  | none => rfl
  | segment hr => simp [Snapshot.readSegment?, hc] at hr
  | array hr => simp [Snapshot.readArray?, Snapshot.readSegment?, hc] at hr
  | text hr => simp [Snapshot.readText?, hc] at hr
  | freeze hr => simp [Snapshot.freeze?, hc, hfrozen] at hr

namespace Workspace

variable {w w₁ w' : Workspace} {id : BuilderId} {sid : SnapshotId} {st : Step} {k : Nat}
  {before later : List Step}

/-- The builder is there, and disposed. -/
def Gone (w : Workspace) (id : BuilderId) : Prop :=
  ∃ b, w.builderAt? id = some b ∧ b.disposed = true

theorem gone_disposeBuilder (h : ∃ b, w.builderAt? id = some b) :
    (w.disposeBuilder id).Gone id := by
  obtain ⟨b, hb⟩ := h
  refine ⟨b.dispose (w.isShared id), ?_, b.disposed_dispose _⟩
  rw [builderAt?_disposeBuilder hb, builderAt?_setBuilder, if_pos rfl, hb]
  rfl

theorem Disposes.gone (h : Disposes w w') (hg : w.Gone id) : w'.Gone id := by
  obtain ⟨b, hb, hd⟩ := hg
  have hrel := h id
  rw [hb] at hrel
  obtain ⟨b', hb', hdisc⟩ := Slot.of_some hrel
  refine ⟨b', hb', ?_⟩
  rcases hdisc with rfl | ⟨shared, rfl⟩
  · exact hd
  · exact b.disposed_dispose shared

theorem gone_disposeBuilders (ids : List BuilderId) : ∀ {w : Workspace},
    (∃ b, w.builderAt? id = some b) → id ∈ ids →
      (ids.foldl (fun w id => w.disposeBuilder id) w).Gone id := by
  induction ids with
  | nil =>
      intro w _ hid
      cases hid
  | cons i rest ih =>
      intro w hb hid
      obtain ⟨b, hb⟩ := hb
      rcases List.mem_cons.mp hid with rfl | hrest
      · exact (disposes_foldl rest _).gone (gone_disposeBuilder ⟨b, hb⟩)
      · have hrel := disposes_disposeBuilder w i id
        rw [hb] at hrel
        obtain ⟨b', hb', -⟩ := Slot.of_some hrel
        exact ih ⟨b', hb'⟩ hrest

/-- A name that goes to another builder leaves the former one disposed. -/
theorem gone_nameBuilder {name : String} (hname : w.builderNames.get? name = some id)
    (hb : ∃ b, w.builderAt? id = some b) (id' : BuilderId) : (w.nameBuilder name id').Gone id := by
  simp only [nameBuilder, hname]
  exact gone_disposeBuilder hb

/-! ## §2. Steps that end what a builder contains. -/

/-- The step disposes or drops the builder: by its name, by giving the name to another
builder, or with the pool in which it waits. -/
def Step.Drops (w : Workspace) (id : BuilderId) : Step → Prop
  | .edit b .dispose | .dropBuilder b | .newBuilder b _ | .borrow b _ _ | .take _ b
  | .rent _ _ (some b) => w.builderNames.get? b = some id
  | .newPool p _ => ∃ pool, w.poolNames.get? p = some pool ∧ id ∈ pool.idle
  | _ => False

/-- The step returns the builder to a pool: by its name, or after it was rented for a
text only. -/
def Step.Returns (w : Workspace) (id : BuilderId) : Step → Prop
  | .giveBack _ b => w.builderNames.get? b = some id
  | .rent p _ none => ∃ pool, w.poolNames.get? p = some pool ∧ pool.take.1 = some id
  | _ => False

/-- The step, which is not refused, clears the builder, or disposes, drops or returns it
while it is alive. -/
structure Step.Ends (w : Workspace) (id : BuilderId) (st : Step) : Prop where
  done : ∃ r w', w.step st = .ok (r, w')
  ends : (∃ b, st = .edit b .clear ∧ w.builderNames.get? b = some id) ∨
    (∃ b, w.builderAt? id = some b ∧ b.disposed = false) ∧ (st.Drops w id ∨ st.Returns w id)

theorem builderAt?_takeFrom {p : String} {pool : Pool BuilderId}
    (h : ∃ b, w.builderAt? id = some b) :
    (w.takeFrom p pool).2.builderAt? id = w.builderAt? id := by
  obtain ⟨b, hb⟩ := h
  rcases joins_takeFrom w p pool id with he | ⟨hn, -⟩
  · exact he
  · rw [hb] at hn
    cases hn

theorem builderNames_takeFrom (w : Workspace) (p : String) (pool : Pool BuilderId) :
    (w.takeFrom p pool).2.builderNames = w.builderNames := by
  obtain ⟨tenants, pools, he⟩ := takeFrom_eq w p pool
  rw [he]

theorem builderAt?_setBuilder_isSome {id' : BuilderId} (b' : Builder)
    (h : ∃ b, w.builderAt? id = some b) : ∃ b, (w.setBuilder id' b').builderAt? id = some b := by
  obtain ⟨b, hb⟩ := h
  rw [builderAt?_setBuilder]
  by_cases he : id = id'
  · subst he
    exact ⟨b', by rw [if_pos rfl, hb]; rfl⟩
  · exact ⟨b, by rw [if_neg he]; exact hb⟩

theorem builderAt?_addBuilder_isSome (b' : Builder) (h : ∃ b, w.builderAt? id = some b) :
    ∃ b, (w.addBuilder b').2.builderAt? id = some b := by
  obtain ⟨b, hb⟩ := h
  refine ⟨b, ?_⟩
  simp only [builderAt?, addBuilder, Array.getElem?_push] at hb ⊢
  split
  · next hi =>
      rw [hi, Array.getElem?_eq_none (Nat.le_refl _)] at hb
      cases hb
  · exact hb

theorem gone_addNamed {name : String} (hname : w.builderNames.get? name = some id)
    (hb : ∃ b, w.builderAt? id = some b) (b' : Builder) :
    (w.addNamed name b').2.Gone id ∧ (w.addNamed name b').2.snapshots = w.snapshots := by
  have hnamed : (w.addBuilder b').2.builderNames.get? name = some id := hname
  exact ⟨gone_nameBuilder hnamed (builderAt?_addBuilder_isSome b' hb) _,
    ((quiet_addBuilder w b').trans (quiet_nameBuilder _ name _)).snapshots⟩

/-- A builder that a step drops is disposed after it, and no snapshot was touched. -/
theorem Step.Drops.gone {r : Reply} (hd : st.Drops w id) (hb : ∃ b, w.builderAt? id = some b)
    (h : w.step st = .ok (r, w')) : w'.Gone id ∧ w'.snapshots = w.snapshots := by
  cases st with
  | edit name e =>
      cases e with
      | dispose =>
          obtain ⟨v, hname, -, hedit⟩ := edit_eq_ok h
          have hid : some v.1 = some id := (builderId_eq_ok hname).symm.trans hd
          cases hid
          cases hedit
          exact ⟨gone_disposeBuilder hb, (quiet_disposeBuilder w v.1).snapshots⟩
      | _ => exact hd.elim
  | dropBuilder b =>
      obtain ⟨id', hname, h⟩ := ok_of_bind h
      have hid : some id' = some id := (builderId_eq_ok hname).symm.trans hd
      cases hid
      cases h
      exact ⟨gone_disposeBuilder hb, (quiet_disposeBuilder (w.unnameBuilder b) id).snapshots⟩
  | newBuilder b o =>
      cases h
      exact gone_addNamed hd hb (.new o)
  | borrow b memory policy =>
      cases h
      exact gone_addNamed hd hb (.borrowing memory policy)
  | take p b =>
      obtain ⟨pool, -, h⟩ := ok_of_bind h
      cases h
      have hname : (w.takeFrom p pool).2.builderNames.get? b = some id := by
        rw [builderNames_takeFrom]
        exact hd
      exact ⟨gone_nameBuilder hname (builderAt?_takeFrom hb ▸ hb) _,
        ((quiet_takeFrom w p pool).trans (quiet_nameBuilder _ b _)).snapshots⟩
  | rent p t keep =>
      have hsnapshots := (quiet_rent h).snapshots
      obtain ⟨pool, pool₁, b, -, -, -, -, rfl⟩ := rent_eq_ok h
      refine ⟨?_, hsnapshots⟩
      cases keep with
      | none => exact hd.elim
      | some name =>
          have hname : (w.takeFrom p pool).2.builderNames.get? name = some id := by
            rw [builderNames_takeFrom]
            exact hd
          have hat : ∃ b, (w.takeFrom p pool).2.builderAt? id = some b := by
            rw [builderAt?_takeFrom hb]
            exact hb
          exact gone_nameBuilder (w := (w.takeFrom p pool).2.setBuilder (w.takeFrom p pool).1
            (b.appendText t).2) hname (builderAt?_setBuilder_isSome _ hat) _
  | newPool p o =>
      obtain ⟨pool, hp, hid⟩ := hd
      cases h
      rw [hp]
      have hset : Quiet w (w.setPool p (.new o)) := .of_eq rfl rfl
      exact ⟨gone_disposeBuilders pool.idle hb hid, (hset.trans (quiet_foldl _ _)).snapshots⟩
  | _ => exact hd.elim

/-- A builder that is returned alive is disposed, or it is cleared and kept. -/
theorem version_giveBackTo {p : String} {pool : Pool BuilderId} {b : Builder}
    (hb : w.builderAt? id = some b) (halive : b.disposed = false) :
    ∃ b', (w.giveBackTo p pool id).builderAt? id = some b' ∧ b'.version ≠ b.version := by
  have hrel := returned_giveBackTo w p pool id id
  rw [hb] at hrel
  obtain ⟨b', hb', hret⟩ := Slot.of_some hrel
  refine ⟨b', hb', fun hv => ?_⟩
  -- With its version as before it would be the builder that was returned.
  have hsame := hret.eq_of_version hv
  subst hsame
  have hgone (hg : (w.giveBackTo p pool id).Gone id) : False := by
    obtain ⟨b₁, hb₁, hd⟩ := hg
    rw [hb'] at hb₁
    cases hb₁
    rw [halive] at hd
    cases hd
  have hcleared : ∃ b₁, (w.setBuilder id b'.clear).builderAt? id = some b₁ :=
    builderAt?_setBuilder_isSome _ ⟨b', hb⟩
  simp only [giveBackTo, hb] at hgone hb'
  cases hf : pool.fate b' with
  | forgotten =>
      simp only [Pool.fate, halive, Bool.false_eq_true, if_false] at hf
      split at hf
      · split at hf <;> cases hf
      · cases hf
  | unsuitable =>
      rw [hf] at hgone
      exact hgone (gone_disposeBuilder ⟨b', hb⟩)
  | crowded =>
      rw [hf] at hgone
      exact hgone (gone_disposeBuilder hcleared)
  | kept =>
      rw [hf] at hb'
      have hclear : (w.setBuilder id b'.clear).builderAt? id = some b' := hb'
      rw [builderAt?_setBuilder, if_pos rfl, hb] at hclear
      exact b'.version_clear_ne (congrArg Builder.version (Option.some.inj hclear))

theorem takeFrom_of_take {p : String} {pool : Pool BuilderId} (h : pool.take.1 = some id) :
    w.takeFrom p pool = (id, w.setPool p pool.take.2) := by
  unfold takeFrom
  split
  · next id' p' he =>
      rw [he] at h ⊢
      cases h
      rfl
  · next p' he =>
      rw [he] at h
      cases h

/-- A builder that a step returns has moved on, and no snapshot was touched. -/
theorem Step.Returns.version_ne {r : Reply} {b : Builder} (hr : st.Returns w id)
    (hb : w.builderAt? id = some b) (halive : b.disposed = false) (h : w.step st = .ok (r, w')) :
    (∃ b', w'.builderAt? id = some b' ∧ b'.version ≠ b.version) ∧ w'.snapshots = w.snapshots := by
  cases st with
  | giveBack p name =>
      obtain ⟨pool, -, h⟩ := ok_of_bind h
      obtain ⟨id', hname, h⟩ := ok_of_bind h
      have hid : some id' = some id := (builderId_eq_ok hname).symm.trans hr
      cases hid
      cases h
      have hunnamed : (w.unnameBuilder name).builderAt? id = some b := hb
      exact ⟨version_giveBackTo hunnamed halive,
        (quiet_giveBackTo (w.unnameBuilder name) p pool id).snapshots⟩
  | rent p t keep =>
      cases keep with
      | some name => exact hr.elim
      | none =>
          have hsnapshots := (quiet_rent h).snapshots
          obtain ⟨pool, hpool, htake⟩ := hr
          obtain ⟨pool', pool₁, b₁, hpool', -, hb₁, -, rfl⟩ := rent_eq_ok h
          rw [pool_eq_ok hpool'] at hpool
          cases hpool
          refine ⟨?_, hsnapshots⟩
          -- The builder was idle; appending to it moves no version.
          rw [takeFrom_of_take htake] at hb₁ ⊢
          have hsame : b₁ = b := Option.some.inj (hb₁.symm.trans hb)
          subst hsame
          have hat : ((w.setPool p pool.take.2).setBuilder id (b₁.appendText t).2).builderAt? id =
              some (b₁.appendText t).2 := by
            rw [builderAt?_setBuilder, if_pos rfl, hb₁]
            rfl
          have halive' : (b₁.appendText t).2.disposed = false :=
            (Builder.Framed.appendUnits b₁ _).disposed.trans halive
          obtain ⟨b', hb', hne⟩ := version_giveBackTo hat halive'
          exact ⟨b', hb', (b₁.grown_appendText t).keeps.version ▸ hne⟩
  | _ => exact hr.elim

/-- A builder that is there was at most handled by a step that drops it. -/
theorem Step.Drops.handled {r : Reply} {b : Builder} (hd : st.Drops w id)
    (hb : w.builderAt? id = some b) (h : w.step st = .ok (r, w')) :
    ∃ b', w'.builderAt? id = some b' ∧ Builder.Handled b b' := by
  have hrel : Option.Rel Builder.Handled (some b) (w'.builderAt? id) := by
    by_cases he : ∃ name e, st = .edit name e
    · obtain ⟨name, e, rfl⟩ := he
      cases e with
      | dispose =>
          obtain ⟨v, -, -, hedit⟩ := edit_eq_ok h
          cases hedit
          rw [← hb]
          exact Slot.mono (fun _ _ hd => hd.returned.handled) (disposes_disposeBuilder w v.1 id)
      | _ => exact hd.elim
    · obtain ⟨o, ho, hrel⟩ := tended_step h (fun name e hs => he ⟨name, e, hs⟩) id
      rcases ho with rfl | ⟨hn, -⟩
      · rwa [hb] at hrel
      · rw [hb] at hn
        cases hn
  exact Slot.of_some hrel

/-- A builder that has another version after a step was moved on by it. -/
theorem moves_pos (hw : w.Consistent) {b b' : Builder} (hb : w.builderAt? id = some b)
    (hb' : (w.after st).builderAt? id = some b') (hne : b'.version ≠ b.version) :
    0 < moves id w st := by
  rw [Nat.pos_iff_ne_zero]
  intro hzero
  have hversion := version_after id w st
  rw [hzero, see_of_builderAt? hb, see_of_builderAt? hb', (hw id b hb).version,
    (hw.after st id b' hb').version] at hversion
  exact hne (hversion.trans (by simp))

/-- **A step that ends what a builder contains moves its version on**, and touches no
snapshot. -/
theorem Step.Ends.moves (h : st.Ends w id) (hw : w.Consistent)
    (hb : ∃ b, w.builderAt? id = some b) :
    0 < Workspace.moves id w st ∧ (w.after st).snapshots = w.snapshots := by
  obtain ⟨b, hb⟩ := hb
  obtain ⟨⟨r, w', hstep⟩, hends⟩ := h
  -- It is enough that the version is another one after the step.
  have hmoves {b' : Builder} (hb' : (w.after st).builderAt? id = some b')
      (hne : b'.version ≠ b.version) : 0 < Workspace.moves id w st := moves_pos hw hb hb' hne
  rw [after_of_step hstep] at hmoves ⊢
  rcases hends with ⟨name, rfl, hname⟩ | ⟨⟨b₁, hb₁, halive⟩, hdrops | hreturns⟩
  · obtain ⟨v, hv, hb₁, hedit⟩ := edit_eq_ok hstep
    have hid : some v.1 = some id := (builderId_eq_ok hv).symm.trans hname
    cases hid
    cases hedit
    rw [hb] at hb₁
    cases hb₁
    have hb' : (w.setBuilder v.1 v.2.builder.clear).builderAt? v.1 = some v.2.builder.clear := by
      rw [builderAt?_setBuilder, if_pos rfl, hb]
      rfl
    exact ⟨hmoves hb' (Builder.version_clear_ne _), rfl⟩
  · rw [hb] at hb₁
    cases hb₁
    obtain ⟨⟨b₁, hb₁, hd⟩, hsnapshots⟩ := hdrops.gone ⟨b, hb⟩ hstep
    obtain ⟨b', hb', hh⟩ := hdrops.handled hb hstep
    rw [hb'] at hb₁
    cases hb₁
    exact ⟨hmoves hb' (hh.version_ne halive hd), hsnapshots⟩
  · rw [hb] at hb₁
    cases hb₁
    obtain ⟨⟨b', hb', hne⟩, hsnapshots⟩ := hreturns.version_ne hb halive hstep
    exact ⟨hmoves hb' hne, hsnapshots⟩

/-! ## §3. Snapshots of an earlier version. -/

/-- The snapshot is bound to a version of the builder from which it has moved on, `k`
times at most. -/
def Outdated (sid : SnapshotId) (id : BuilderId) (k : Nat) (w : Workspace) : Prop :=
  ∃ s v n j, w.snapshotAt? sid = some s ∧ s.origin = .bound id v n ∧ 0 < j ∧ j ≤ k ∧
    (w.see id).version = v + UInt64.ofNat j

/-- Less than all versions later the snapshot is not current. -/
theorem isCurrent_of_version {see : BuilderId → Published} {s : Snapshot} {v : UInt64} {n j : Nat}
    (ho : s.origin = .bound id v n) (hpos : 0 < j) (hj : j < 2 ^ 64)
    (hv : (see id).version = v + UInt64.ofNat j) : s.isCurrent see = false := by
  have hne : v + UInt64.ofNat j ≠ v := by
    intro he
    have hzero : UInt64.ofNat j = 0 := by grind
    have hnat := congrArg UInt64.toNat hzero
    rw [UInt64.toNat_ofNat_of_lt' hj] at hnat
    exact absurd hnat (by simp; omega)
  simp [Snapshot.isCurrent, ho, hv, hne]

/-- A step that ends what the builder contains leaves the snapshots of the content behind. -/
theorem Step.Ends.outdated {s : Snapshot} {v : UInt64} {n j : Nat} (h : st.Ends w id)
    (hw : w.Consistent) (hb : ∃ b, w.builderAt? id = some b) (hs : w.snapshotAt? sid = some s)
    (ho : s.origin = .bound id v n) (hj : j ≤ k)
    (hv : (w.see id).version = v + UInt64.ofNat j) :
    Outdated sid id (k + Workspace.moves id w st) (w.after st) := by
  obtain ⟨hmoved, hsnapshots⟩ := h.moves hw hb
  refine ⟨s, v, n, j + Workspace.moves id w st, ?_, ho, by omega, by omega, ?_⟩
  · rw [snapshotAt?, hsnapshots]
    exact hs
  · rw [version_after, hv, UInt64.ofNat_add, UInt64.add_assoc]

theorem Outdated.after (h : Outdated sid id k w) (hk : k < 2 ^ 64) (hmay : ¬ st.mayRecycle w sid) :
    Outdated sid id (k + moves id w st) (w.after st) := by
  obtain ⟨s, v, n, j, hs, ho, hpos, hj, hv⟩ := h
  have hcurrent := isCurrent_of_version ho hpos (by omega) hv
  obtain ⟨s', hs', hr⟩ := (turned_after w st).old sid s hs
  rcases hr with hread | ⟨hrec, -⟩
  · rw [hread.eq_of_not_current hcurrent] at hs'
    refine ⟨s, v, n, j + moves id w st, hs', ho, by omega, by omega, ?_⟩
    rw [version_after, hv, UInt64.ofNat_add, UInt64.add_assoc]
  · exact absurd hrec hmay

/-- **A held snapshot of an earlier version stays one.** -/
theorem outdated_run (hk : Kept sid w later) (h : Outdated sid id k w)
    (hc : k + clears id w later < 2 ^ 64) :
    Outdated sid id (k + clears id w later) (w.run later) := by
  induction later generalizing w k with
  | nil => exact h
  | cons st rest ih =>
      have hsum : k + clears id w (st :: rest) =
          k + moves id w st + clears id (w.after st) rest := by
        rw [clears, ← Nat.add_assoc]
        rfl
      rw [hsum] at hc ⊢
      exact ih hk.2.2 (h.after (by omega) hk.not_mayRecycle) hc

/-- **Once cleared, stale for good.**  The snapshot is bound to the builder when a step
ends what the builder contains.  As long as it is held after that and not recycled by
request, every read of it, freezing it and appending it are refused, whatever steps
follow; a refused append changes nothing. -/
theorem refused_for_good {s : Snapshot} (hs : (run {} before).snapshotAt? sid = some s)
    (hbound : s.boundTo? = some id) (hends : st.Ends (run {} before) id)
    (hk : Kept sid (run {} before) (st :: later))
    (hc : clears id {} (before ++ st :: later) < 2 ^ 64) {name : String}
    (hname : (run {} (before ++ st :: later)).snapshotNames.get? name = some sid) :
    Refuses (run {} (before ++ st :: later)) name := by
  obtain ⟨v, n, ho⟩ := Snapshot.origin_of_boundTo? hbound
  obtain ⟨hb, -⟩ := (faithful_run before).shows sid s id v n hs ho
  -- Until the content ends, the snapshot fell behind as often as the builder was cleared.
  obtain ⟨j, hj, hv, -⟩ := dated_run before sid s id v n hs ho
  have houtdated : Outdated sid id (clears id {} before + moves id (run {} before) st)
      ((run {} before).after st) := hends.outdated (consistent_run before) hb hs ho hj hv
  have hsum : clears id {} (before ++ st :: later) = clears id {} before +
      moves id (run {} before) st + clears id ((run {} before).after st) later := by
    rw [clears_append, clears, ← Nat.add_assoc]
    rfl
  rw [hsum] at hc
  obtain ⟨s', v', n', j', hs', ho', hpos, hj', hv'⟩ := outdated_run hk.2.2 houtdated hc
  rw [run_append, run_cons] at hname ⊢
  exact refuses_of_not_current (snapshot_of_get? hname hs')
    (isCurrent_of_version ho' hpos (by omega) hv')

/-- A session that holds a snapshot of a builder from a pool. -/
def borrowed : List Step :=
  [.newPool "p" { builder := ⟨8, .error⟩, limit := 1 }, .take "p" "b", .edit "b" (.text "ab"),
   .snap "b" "s"]

/-- The builder is returned, taken again and filled with the same text. -/
theorem refused_for_good_borrowed :
    Refuses (run {} (borrowed ++ .giveBack "p" "b" ::
      [.take "p" "c", .edit "c" (.text "ab"), .snap "c" "t"])) "s" := by
  have hends : (Step.giveBack "p" "b").Ends (run {} borrowed) ⟨0⟩ :=
    ⟨⟨_, _, rfl⟩, .inr ⟨⟨_, rfl, rfl⟩, .inr rfl⟩⟩
  have hkept : Kept ⟨0⟩ (run {} borrowed) (.giveBack "p" "b" ::
      [.take "p" "c", .edit "c" (.text "ab"), .snap "c" "t"]) := by
    refine ⟨rfl, ?_, rfl, ?_, rfl, ?_, rfl, ?_, rfl⟩ <;> (intro name he; cases he)
  exact refused_for_good rfl rfl hends hkept (by decide) rfl

/-- A session that disposes a builder again after a snapshot of the disposed one. -/
def disposedTwice : List Step :=
  [.newBuilder "b" ⟨8, .error⟩, .edit "b" .dispose, .snap "b" "s", .edit "b" .dispose]

/-- Disposing once more does nothing, so that the snapshot can still be read. -/
theorem disposedTwice_current :
    (∃ w, (run {} (disposedTwice.take 3)).step (.edit "b" .dispose) = .ok (.done, w)) ∧
      ((run {} disposedTwice).snapshot? "s").bind (·.boundTo?) =
        (run {} disposedTwice).builderNames.get? "b" ∧
      ∃ w, (run {} disposedTwice).step (.look "s" .text) = .ok (.text "", w) :=
  ⟨⟨_, rfl⟩, rfl, _, rfl⟩

end Workspace
end ValueText
