/-
  ValueText.Proofs.Buffer.Bounded — content within the capacity, capacity within the memory.

  An edit changes its builder by one of the builder's own operations.  `edited`
  says which one, and everything that is true of all builders of a session is
  proved along it: once for each operation, once for what renting and returning
  do, and then for a run.

  Main results:

    • `builderAt?_edited`  the builder after an edit is `edited`, all others stay;
    • `Durable`            what is true of new builders and kept by all that happens to
                           them is true of every builder of a session;
    • `Bounded`            `length ≤ capacity ≤ size of the memory`, the memory is
                           not released while there is capacity, and no overflow
                           is pending under the reporting policy;
    • `bounded_run`        every builder of a session is bounded;
    • `units_length`       the content of a bounded builder has its length.
-/
import ValueText.Proofs.Buffer.Session

namespace ValueText

/-! ## §1. What an edit makes of its builder. -/

namespace Workspace

variable {w w' : Workspace}

/-- The units that the named snapshot reads as at the moment. -/
def reading? (w : Workspace) (name : String) : Option (List CodeUnit) :=
  ((w.snapshot? name).bind (·.readSegment? w.see)).map (·.1.units)

/-- The builder after an edit. -/
def edited (w : Workspace) (id : BuilderId) (b : Builder) : Edit → Builder
  | .unit u => (b.appendUnit u).2
  | .units us => (b.appendUnits us).2
  | .char c => (b.appendChar c).2
  | .repeated u n => (b.appendRepeated u n).2
  | .text s => (b.appendText s).2
  | .bool v => (b.appendBool v).2
  | .int width n => (b.appendInt width n).2
  | .pieces ps complete => (b.appendPieces ps complete).2
  | .sink s => (b.sink s).2
  | .builder other => ((w.builder? other).map fun o => (b.appendBuilder o).2).getD b
  | .snapshot name => ((w.reading? name).map fun us => (b.appendUnits us).2).getD b
  | .terminate => b.terminate.2
  | .clear => b.clear
  | .dispose => b.dispose (w.isShared id)
  | .truncate n => b.truncate n
  | .get _ => b
  | .set i u => (b.set? i u).getD b

theorem builder?_of_builder {name : String} {v : BuilderId × Tenant} (h : w.builder name = .ok v) :
    w.builder? name = some v.2.builder := by
  obtain ⟨hid, ht⟩ := builder_eq_ok h
  unfold builderId at hid
  split at hid
  · next id hget =>
      cases hid
      rw [builder?, hget, Option.bind_some, builderAt?_of_tenant ht]
  · cases hid

theorem reading?_of_snapshot {name : String} {v : SnapshotId × Snapshot}
    (h : w.snapshot name = .ok v) :
    w.reading? name = (v.2.readSegment? w.see).map (·.1.units) := by
  rw [reading?, snapshot?, h]
  rfl

/-- **An edit changes its builder as `edited` says, and no other one.** -/
theorem builderAt?_edited {id : BuilderId} {t : Tenant} {e : Edit} {r : Reply}
    (hb : w.builderAt? id = some t.builder) (h : w.edit id t e = .ok (r, w')) (id' : BuilderId) :
    w'.builderAt? id' = (w.setBuilder id (w.edited id t.builder e)).builderAt? id' := by
  -- An edit that leaves the workspace alone leaves the builder where it is.
  have hsame : w.builderAt? id' = (w.setBuilder id t.builder).builderAt? id' := by
    rw [builderAt?_setBuilder, hb]
    by_cases he : id' = id
    · rw [if_pos he, he, hb]; rfl
    · rw [if_neg he]
  cases e with
  | builder other =>
      obtain ⟨v, hv, h⟩ := ok_of_bind h
      cases h
      simp only [edited, builder?_of_builder hv, Option.map_some, Option.getD_some]
  | snapshot name =>
      obtain ⟨v, hv, h⟩ := ok_of_bind h
      have hr := reading?_of_snapshot hv
      dsimp only at h
      split at h
      · next hnone =>
          cases h
          rw [hnone] at hr
          simp only [edited, hr, Option.map_none, Option.getD_none]
          exact hsame
      · next seg s hsome =>
          cases h
          rw [hsome] at hr
          simp only [edited, hr, Option.map_some, Option.getD_some]
          rfl
  | dispose =>
      cases h
      exact builderAt?_disposeBuilder hb id'
  | get i =>
      simp only [edit] at h
      split at h <;> cases h
      exact hsame
  | set i u =>
      simp only [edit] at h
      split at h
      · next b' hset =>
          cases h
          simp only [edited, hset, Option.getD_some]
      · cases h
  | _ => cases h; rfl

end Workspace

/-! ## §2. Bounded builders. -/

namespace Region

/-- A change of the memory that neither resizes nor releases it. -/
structure Steady (fill : Region → Region) : Prop where
  size : ∀ r, (fill r).cells.size = r.cells.size
  ownership : ∀ r, (fill r).ownership = r.ownership

theorem steady_write (i : Nat) (us : List CodeUnit) : Steady (·.write i us) :=
  ⟨fun r => size_write us r i, fun r => ownership_write us r i⟩

end Region

namespace Builder

theorem steady_writeDigits (count : Nat) :
    ∀ stop n, Region.Steady fun r => writeDigits r stop count n := by
  induction count with
  | zero => intro stop n; exact ⟨fun _ => rfl, fun _ => rfl⟩
  | succ count ih =>
      intro stop n
      have hrest := ih (stop - 1) (n / 10)
      refine ⟨fun r => ?_, fun r => ?_⟩
      · show (writeDigits (r.put (stop - 1) _) (stop - 1) count (n / 10)).cells.size = _
        rw [hrest.size, Region.size_put]
      · exact hrest.ownership _

/-- The content lies within the capacity and the capacity within the memory, which is
not released while there is any.  Only the error policy keeps an overflow pending. -/
structure Bounded (b : Builder) : Prop where
  length : b.length ≤ b.capacity
  capacity : b.capacity ≤ b.region.cells.size
  owned : 0 < b.capacity → b.region.ownership ≠ .released
  pending : b.policy = .report → b.pending = none

theorem bounded_ofRegion (r : Region) (policy : OverflowPolicy) : (ofRegion r policy).Bounded := by
  refine ⟨Nat.zero_le _, ?_, ?_, fun _ => rfl⟩
  · show r.capacity ≤ r.cells.size
    unfold Region.capacity
    split <;> omega
  · show 0 < r.capacity → r.ownership ≠ .released
    unfold Region.capacity
    intro hpos hreleased
    rw [if_pos hreleased] at hpos
    omega

namespace Bounded

variable {b : Builder}

theorem overflow (h : b.Bounded) (requested available : Nat) :
    (b.overflow requested available).2.Bounded := by
  unfold Builder.overflow
  split <;> exact ⟨h.length, h.capacity, h.owned, h.pending⟩

theorem commit (h : b.Bounded) {n : Nat} (hn : n ≤ b.capacity) : (b.commit n).Bounded :=
  ⟨hn, h.capacity, h.owned, h.pending⟩

theorem fill (h : b.Bounded) {change : Region → Region} (hs : Region.Steady change) :
    (b.withRegion (change b.region)).Bounded := by
  refine ⟨h.length, ?_, ?_, h.pending⟩
  · show b.capacity ≤ (change b.region).cells.size
    rw [hs.size]
    exact h.capacity
  · show 0 < b.capacity → (change b.region).ownership ≠ .released
    rw [hs.ownership]
    exact h.owned

theorem put (h : b.Bounded) (i : Nat) (u : CodeUnit) :
    (b.withRegion (b.region.put i u)).Bounded := h.fill (Region.steady_write i [u])

theorem reserve (h : b.Bounded) (count : Nat) {change : Region → Region}
    (hs : Region.Steady change) : (b.reserve count change).2.Bounded := by
  unfold Builder.reserve
  split
  · refine (h.fill hs).commit ?_
    have hl := h.length
    show b.length + count ≤ b.capacity
    omega
  · exact h.overflow _ _

theorem appendUnits (h : b.Bounded) (us : List CodeUnit) : (b.appendUnits us).2.Bounded :=
  h.reserve _ (Region.steady_write _ us)

theorem appendText (h : b.Bounded) (s : String) : (b.appendText s).2.Bounded := h.appendUnits _

theorem appendRepeated (h : b.Bounded) (u : CodeUnit) (count : Nat) :
    (b.appendRepeated u count).2.Bounded :=
  h.reserve _ (Region.steady_write _ _)

theorem appendBuilder (h : b.Bounded) (other : Builder) : (b.appendBuilder other).2.Bounded :=
  h.reserve _ (Region.steady_write _ _)

theorem appendInt (h : b.Bounded) (w : IntWidth) (n : Int) : (b.appendInt w n).2.Bounded := by
  refine h.reserve _ ⟨fun r => ?_, fun r => ?_⟩
  · rw [(steady_writeDigits _ _ _).size]
    split <;> simp
  · rw [(steady_writeDigits _ _ _).ownership]
    split <;> rfl

theorem clear (h : b.Bounded) : b.clear.Bounded :=
  ⟨Nat.zero_le _, h.capacity, h.owned, h.pending⟩

theorem truncate (h : b.Bounded) (n : Nat) : (b.truncate n).Bounded := by
  unfold Builder.truncate
  split
  · have hl := h.length
    exact h.commit (by omega)
  · exact h

theorem terminate (h : b.Bounded) : b.terminate.2.Bounded := by
  have hl := h.length
  unfold Builder.terminate
  split
  · exact h.put _ _
  · have ho := h.overflow 1 0
    cases hp : b.policy with
    | error =>
        simp only [Builder.overflow, hp] at ho ⊢
        exact ho
    | report =>
        simp only [Builder.overflow, hp] at ho ⊢
        split
        · refine (ho.put _ _).commit ?_
          show b.length - 1 ≤ b.capacity
          omega
        · exact ho

theorem set? (h : b.Bounded) {i : Nat} {u : CodeUnit} {b' : Builder}
    (hset : b.set? i u = some b') : b'.Bounded := by
  simp only [Builder.set?, Region.store?, Option.map_eq_some_iff] at hset
  obtain ⟨r, hr, rfl⟩ := hset
  split at hr
  · cases hr
    exact h.put i u
  · cases hr

theorem dispose (h : b.Bounded) (shared : Bool) : (b.dispose shared).Bounded := by
  unfold Builder.dispose
  split
  · exact h
  · cases shared <;>
      exact ⟨Nat.zero_le _, Nat.zero_le _, fun hc => absurd hc (Nat.lt_irrefl 0), h.pending⟩

theorem sink (h : b.Bounded) (s : String) : (b.sink s).2.Bounded := by
  have ha := h.appendText s
  unfold Builder.sink
  split
  · next v b' he => rw [he] at ha; exact ha
  · next e b' he =>
      rw [he] at ha
      refine ⟨ha.length, ha.capacity, ha.owned, fun hr => ?_⟩
      -- Only the error policy makes an overflow an error.
      simp only [Builder.appendText, Builder.appendUnits, Builder.reserve] at he
      split at he
      · cases he
      · simp only [Builder.overflow] at he
        split at he
        · cases he
        · next hp =>
            cases he
            exact absurd (hp.symm.trans hr) (by decide)

theorem sinkTo (v : Display) : ∀ {b : Builder}, b.Bounded → (v.sinkTo b).2.Bounded := by
  induction v with
  | done ok => exact fun h => h
  | write s next ih => exact fun h => ih _ (h.sink s)

theorem appendDisplay (h : b.Bounded) (v : Display) : (b.appendDisplay v).2.Bounded := by
  have hs := sinkTo v h
  have ht := hs.truncate b.length
  exact appendDisplay_induct hs ⟨ht.length, ht.capacity, ht.owned, fun _ => rfl⟩

theorem appendPieces (h : b.Bounded) (pieces : List String) (complete : Bool) :
    (b.appendPieces pieces complete).2.Bounded := by
  rw [appendPieces_eq]
  exact h.appendDisplay _

theorem discarded {b' : Builder} (h : b.Bounded) (hd : Discarded b b') : b'.Bounded := by
  rcases hd with rfl | ⟨shared, rfl⟩
  · exact h
  · exact h.dispose shared

theorem handled {b' : Builder} (h : b.Bounded) (hh : Handled b b') : b'.Bounded := by
  obtain ⟨b₁, h₁, b₂, h₂, hd⟩ := hh
  have hb₁ : b₁.Bounded := by
    rcases h₁ with rfl | ⟨s, rfl⟩
    · exact h
    · exact h.appendText s
  rcases h₂ with rfl | rfl
  · exact hb₁.discarded hd
  · exact hb₁.clear.discarded hd

end Bounded

/-- **The content of a bounded builder has its length.** -/
theorem Bounded.units_length {b : Builder} (h : b.Bounded) : b.units.length = b.length := by
  have hl := h.length
  have hc := h.capacity
  rw [units, Region.slice_zero, List.length_take, Array.length_toList]
  omega

end Builder

/-! ## §3. Sessions. -/

namespace Workspace

variable {w w' : Workspace}

/-- **What edits and handling leave alone is true of every builder after a step**, if it is true
of every builder before it and of a fresh one with the memory that the step asks for. -/
theorem builders_after {P : Builder → Prop} {s : Step}
    (hfresh : ∀ r policy, r.Fresh (s.asks w) → P (.ofRegion r policy))
    (hedited : ∀ id b e, P b → P (w.edited id b e))
    (hhandled : ∀ b b', Builder.Handled b b' → P b → P b')
    (h : ∀ id b, w.builderAt? id = some b → P b) :
    ∀ id b, (w.after s).builderAt? id = some b → P b := by
  cases hs : w.step s with
  | error e => rwa [Workspace.after, hs]
  | ok o =>
      obtain ⟨r, w'⟩ := o
      rw [after_of_step hs]
      intro id b' hb'
      by_cases he : ∃ name e, s = .edit name e
      · obtain ⟨name, e, rfl⟩ := he
        obtain ⟨v, -, hv, hedit⟩ := edit_eq_ok hs
        rw [builderAt?_edited hv hedit, builderAt?_setBuilder] at hb'
        split at hb'
        · rw [hv] at hb'
          cases hb'
          exact hedited v.1 _ e (h _ _ hv)
        · exact h id b' hb'
      · -- Every other step hands builders around.
        obtain ⟨o, ho, hrel⟩ := tended_step hs (fun name e hc => he ⟨name, e, hc⟩) id
        rw [hb'] at hrel
        cases hrel with
        | some hh =>
            rcases ho with ho | ⟨-, r, policy, hr, ho⟩
            · exact hhandled _ _ hh (h id _ ho.symm)
            · cases ho
              exact hhandled _ _ hh (hfresh r policy hr)

/-- A property of builders that whatever a session does to them leaves alone. -/
structure Durable (P : Builder → Prop) : Prop where
  fresh : ∀ r policy, r.ownership ≠ .released → P (.ofRegion r policy)
  edited : ∀ (w : Workspace) id b e, P b → P (w.edited id b e)
  handled : ∀ b b', Builder.Handled b b' → P b → P b'

namespace Durable

variable {P : Builder → Prop}

theorem after (hP : Durable P) (h : ∀ id b, w.builderAt? id = some b → P b) (s : Step) :
    ∀ id b, (w.after s).builderAt? id = some b → P b :=
  builders_after (fun r policy hr => hP.fresh r policy hr.unreleased) (hP.edited w) hP.handled h

theorem run (hP : Durable P) (steps : List Step) (h : ∀ id b, w.builderAt? id = some b → P b) :
    ∀ id b, (w.run steps).builderAt? id = some b → P b := by
  induction steps generalizing w with
  | nil => exact h
  | cons s rest ih => exact ih (hP.after h s)

/-- **Every builder of a session has a durable property.** -/
theorem run_empty (hP : Durable P) (steps : List Step) :
    ∀ id b, (Workspace.run {} steps).builderAt? id = some b → P b := by
  refine hP.run steps fun id b hb => ?_
  simp [builderAt?] at hb

end Durable

/-- Every builder is bounded. -/
def Bounded (w : Workspace) : Prop := ∀ id b, w.builderAt? id = some b → b.Bounded

theorem bounded_edited {id : BuilderId} {b : Builder} (h : b.Bounded) (e : Edit) :
    (w.edited id b e).Bounded := by
  cases e with
  | unit u => exact h.appendUnits _
  | units us => exact h.appendUnits us
  | char c => exact h.appendUnits _
  | repeated u n => exact h.appendRepeated u n
  | text s => exact h.appendText s
  | bool v => exact h.appendText _
  | int width n => exact h.appendInt width n
  | pieces ps complete => exact h.appendPieces ps complete
  | sink s => exact h.sink s
  | builder other =>
      simp only [edited]
      cases w.builder? other with
      | none => exact h
      | some o => exact h.appendBuilder o
  | snapshot name =>
      simp only [edited]
      cases w.reading? name with
      | none => exact h
      | some us => exact h.appendUnits us
  | terminate => exact h.terminate
  | clear => exact h.clear
  | dispose => exact h.dispose _
  | truncate n => exact h.truncate n
  | get i => exact h
  | set i u =>
      simp only [edited]
      cases hset : b.set? i u with
      | none => exact h
      | some b' => exact h.set? hset

theorem durable_bounded : Durable Builder.Bounded :=
  ⟨fun r policy _ => Builder.bounded_ofRegion r policy, fun _ _ _ e h => bounded_edited h e, fun _ _ hh h => h.handled hh⟩

theorem Bounded.after (h : w.Bounded) (s : Step) : (w.after s).Bounded := durable_bounded.after h s

/-- **Every builder of a session is bounded.** -/
theorem bounded_run (steps : List Step) : (run {} steps).Bounded :=
  durable_bounded.run_empty steps

end Workspace
end ValueText
