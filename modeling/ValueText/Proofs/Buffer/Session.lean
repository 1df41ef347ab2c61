/-
  ValueText.Proofs.Buffer.Session — what one step does to the builders of a workspace.

  A step edits one builder, or it hands builders around: it makes them, names
  them, rents and returns them.  Both are said once here, and a run is the
  repetition of it.

  Main results:

    • `moved_step`         a step that neither edits nor rents only clears and
                           disposes builders, and adds fresh ones;
    • `tended_step`        a step that is no edit only handles builders and adds
                           fresh ones, of the memory that it asks for;
    • `builderAt?_after`   a builder is still there after any step, and follows from
                           what it was unless the step damaged it;
    • `keeps_run`          a builder whose version did not move during a run has
                           kept the units that no edit damaged;
    • `consistent_run`     every builder of a session publishes its own length
                           and version.
-/
import Mathlib.Algebra.Group.Nat.Defs
import ValueText.Proofs.Buffer.Content

namespace ValueText

/-! ## §1. Edits that damage. -/

/-- The edit overwrites or removes one of the first `n` units of the builder. -/
def Workspace.Edit.damages (b : Builder) (n : Nat) : Workspace.Edit → Prop
  | .set i _ => i < n ∧ i < b.length
  | .truncate m => m < n ∧ m < b.length
  | .terminate =>
      b.policy = .report ∧ b.capacity ≤ b.length ∧ 0 < b.length ∧ b.length ≤ n
  | _ => False

instance (b : Builder) (n : Nat) (e : Workspace.Edit) : Decidable (e.damages b n) := by
  cases e <;> unfold Workspace.Edit.damages <;> infer_instance

namespace Builder

/-- `b'` comes out of `b`: it publishes what it is if `b` did, and if its version is
that of `b`, it has kept the units that are not harmed. -/
structure Follows (harm : Nat → Prop) (b b' : Builder) : Prop where
  consistent : b.Consistent → b'.Consistent
  keeps : ∀ n, n ≤ b.length → ¬ harm n → b'.version = b.version → Keeps n b b'

variable {harm : Nat → Prop} {b b' : Builder}

theorem Follows.refl (b : Builder) : Follows harm b b := ⟨id, fun _ hn _ _ => Keeps.refl hn⟩

theorem Grown.follows (h : Grown b b') : Follows harm b b' :=
  ⟨fun hb => hb.grown h, fun _ hn _ _ => h.keeps.of_le hn⟩

theorem Handled.follows (h : Handled b b') : Follows harm b b' :=
  ⟨h.consistent, fun _ hn _ hv => (h.keeps hv).of_le hn⟩

theorem follows_clear (b : Builder) : Follows harm b b.clear := by
  refine ⟨fun _ => Consistent.clear b, fun n _ _ hv => ?_⟩
  -- Clearing moves the version on, so nothing is promised of the units.
  have hc : b.clear.version = b.version + 1 := rfl
  exact absurd (hc.symm.trans hv) (by grind)

theorem follows_truncate (b : Builder) (m : Nat) :
    Follows (fun n => (Workspace.Edit.truncate m).damages b n) b (b.truncate m) := by
  refine ⟨fun hb => hb.truncate m, fun n hn hsafe _ => ?_⟩
  simp only [Workspace.Edit.damages, not_and, Nat.not_lt] at hsafe
  by_cases hm : m < n
  · have hlen := hsafe hm
    rw [truncate, if_neg (by omega)]
    exact Keeps.refl hn
  · exact keeps_truncate hn (by omega)

theorem follows_set {i : Nat} {u : CodeUnit} (h : b.set? i u = some b') :
    Follows (fun n => (Workspace.Edit.set i u).damages b n) b b' := by
  refine ⟨fun hb => hb.set? h, fun n hn hsafe _ => ?_⟩
  simp only [Workspace.Edit.damages, not_and, Nat.not_lt] at hsafe
  simp only [set?, Region.store?, Option.map_eq_some_iff] at h
  obtain ⟨r, hr, rfl⟩ := h
  split at hr
  · cases hr
    refine ⟨rfl, Region.slice_put u ?_, hn⟩
    by_cases hi : i < n
    · have := hsafe hi
      omega
    · omega
  · cases hr

theorem follows_terminate (b : Builder) :
    Follows (fun n => Workspace.Edit.terminate.damages b n) b b.terminate.2 := by
  refine ⟨fun hb => hb.terminate, fun n hn hsafe _ => ?_⟩
  simp only [Workspace.Edit.damages, not_and, Nat.not_le] at hsafe
  unfold terminate
  split
  · exact ⟨rfl, Region.slice_put 0 hn, hn⟩
  · next hfull =>
      cases hp : b.policy with
      | error => simp only [overflow, hp]; exact ⟨rfl, rfl, hn⟩
      | report =>
          -- A full builder gives up its last unit for the terminator.
          simp only [overflow, hp]
          split
          · next hpos =>
              have hlen := hsafe hp (by omega) hpos
              refine ⟨rfl, Region.slice_put 0 ?_, ?_⟩
              · show n ≤ b.length - 1
                omega
              · show n ≤ b.length - 1
                omega
          · exact ⟨rfl, rfl, hn⟩

end Builder

/-- A computation that succeeds succeeds in its first part, and with that in the rest. -/
theorem ok_of_bind {φ α β : Type} {x : Except φ α} {f : α → Except φ β} {c : β}
    (h : x >>= f = .ok c) : ∃ a, x = .ok a ∧ f a = .ok c := by
  cases x with
  | error e => cases h
  | ok a => exact ⟨a, rfl, h⟩

/-- The number of units that the next builder of a pool needs memory for, in addition to what
there is. -/
def Pool.asks {β : Type} (p : Pool β) : Nat :=
  if p.idle.isEmpty then p.options.builder.capacity else 0

namespace Region

/-- The memory is there, and it is for no more than `n` units. -/
structure Fresh (r : Region) (n : Nat) : Prop where
  room : r.capacity ≤ n
  unreleased : r.ownership ≠ .released

theorem capacity_allocate (n : Nat) : (allocate n).capacity = n := by simp [allocate, capacity]

theorem allocate_ownership (n : Nat) : (allocate n).ownership ≠ .released := nofun

theorem adopt_ownership (us : List CodeUnit) : (adopt us).ownership ≠ .released := nofun

end Region

theorem BuilderId.index_ne {id id' : BuilderId} (h : id ≠ id') : id.index ≠ id'.index := by
  intro hindex
  cases id
  cases id'
  exact h (congrArg BuilderId.mk hindex)

namespace Workspace

variable {w w' : Workspace}

/-! ## §2. Builders by number, after the operations of a workspace. -/

theorem Slot.refl {α : Type} {R : α → α → Prop} (h : ∀ x, R x x) (o : Option α) :
    Option.Rel R o o := by
  cases o with
  | none => exact .none
  | some x => exact .some (h x)

theorem Slot.mono {α β : Type} {R S : α → β → Prop} (h : ∀ x y, R x y → S x y) {o : Option α}
    {o' : Option β} (ho : Option.Rel R o o') : Option.Rel S o o' := by
  cases ho with
  | none => exact .none
  | some hr => exact .some (h _ _ hr)

theorem Slot.cases {α β : Type} {R : α → β → Prop} {o : Option α} {o' : Option β}
    (h : Option.Rel R o o') :
    (o = none ∧ o' = none) ∨ ∃ x y, o = some x ∧ o' = some y ∧ R x y := by
  cases h with
  | none => exact .inl ⟨rfl, rfl⟩
  | some hr => exact .inr ⟨_, _, rfl, rfl, hr⟩

theorem Slot.of_some {α β : Type} {R : α → β → Prop} {x : α} {o' : Option β}
    (h : Option.Rel R (some x) o') : ∃ y, o' = some y ∧ R x y := by
  cases h with
  | some hr => exact ⟨_, rfl, hr⟩

theorem Slot.trans {α : Type} {R S T : α → α → Prop} (h : ∀ x y z, R x y → S y z → T x z)
    {o₁ o₂ o₃ : Option α} (h₁ : Option.Rel R o₁ o₂) (h₂ : Option.Rel S o₂ o₃) :
    Option.Rel T o₁ o₃ := by
  cases h₁ with
  | none => cases h₂; exact .none
  | some hr =>
      cases h₂ with
      | some hs => exact .some (h _ _ _ hr hs)

theorem builderAt?_setBuilder (w : Workspace) (id id' : BuilderId) (b : Builder) :
    (w.setBuilder id b).builderAt? id' =
      if id' = id then (w.builderAt? id).map fun _ => b else w.builderAt? id' := by
  simp only [builderAt?, setBuilder, Array.getElem?_modify]
  by_cases h : id' = id
  · subst h
    rw [if_pos rfl, if_pos rfl, Option.map_map, Option.map_map]
    rfl
  · rw [if_neg h, if_neg (BuilderId.index_ne (Ne.symm h))]

theorem setBuilder_self {id : BuilderId} {t : Tenant} (h : w.tenants[id.index]? = some t) :
    w.setBuilder id t.builder = w := by
  have htenants : (w.tenants.modify id.index fun t' => { t' with builder := t.builder }) =
      w.tenants := by
    refine Array.ext_getElem? fun i => ?_
    rw [Array.getElem?_modify]
    split
    · next hi => rw [← hi, h]; rfl
    · rfl
  rw [setBuilder, htenants]

theorem setBuilder_setBuilder (w : Workspace) (id : BuilderId) (b b' : Builder) :
    (w.setBuilder id b).setBuilder id b' = w.setBuilder id b' := by
  have htenants : ((w.tenants.modify id.index fun t => { t with builder := b }).modify id.index
      fun t => { t with builder := b' }) =
      w.tenants.modify id.index fun t => { t with builder := b' } := by
    apply Array.toList_inj.mp
    simp only [Array.toList_modify, List.modify_modify_eq]
    rfl
  rw [setBuilder, setBuilder, setBuilder, htenants]

/-- The builders of `w'` are those of `w`, some of them disposed. -/
def Disposes (w w' : Workspace) : Prop :=
  ∀ id, Option.Rel Builder.Discarded (w.builderAt? id) (w'.builderAt? id)

theorem Disposes.of_eq (h : w'.tenants = w.tenants) : Disposes w w' := by
  intro id
  have he : w'.builderAt? id = w.builderAt? id := by rw [builderAt?, builderAt?, h]
  rw [he]
  exact Slot.refl (fun _ => .inl rfl) _

theorem Disposes.trans {w₁ w₂ w₃ : Workspace} (h₁ : Disposes w₁ w₂) (h₂ : Disposes w₂ w₃) :
    Disposes w₁ w₃ := by
  intro id
  refine Slot.trans ?_ (h₁ id) (h₂ id)
  intro b₁ b₂ b₃ hd₁ hd₂
  exact hd₁.trans hd₂

theorem disposes_disposeBuilder (w : Workspace) (id : BuilderId) :
    Disposes w (w.disposeBuilder id) := by
  unfold disposeBuilder
  split
  · exact .of_eq rfl
  · next b hb =>
      split
      · exact .of_eq rfl
      · intro id'
        simp only [builderAt?, Array.getElem?_modify] at hb ⊢
        by_cases h : id.index = id'.index
        · rw [if_pos h, ← h]
          revert hb
          cases w.tenants[id.index]? with
          | none => intro hb; cases hb
          | some t => intro hb; cases hb; exact .some (.inr ⟨_, rfl⟩)
        · rw [if_neg h]
          exact Slot.refl (fun _ => .inl rfl) _

theorem disposes_foldl (ids : List BuilderId) :
    ∀ w : Workspace, Disposes w (ids.foldl (fun w id => w.disposeBuilder id) w) := by
  induction ids with
  | nil => intro w; exact .of_eq rfl
  | cons id ids ih => intro w; exact (disposes_disposeBuilder w id).trans (ih _)

theorem disposes_nameBuilder (w : Workspace) (name : String) (id : BuilderId) :
    Disposes w (w.nameBuilder name id) := by
  unfold nameBuilder
  have hset : Disposes w { w with builderNames := w.builderNames.set name id } := .of_eq rfl
  split
  · next old _ => exact hset.trans (disposes_disposeBuilder _ old)
  · exact hset

/-! ## §3. Handing builders around. -/

/-- The builders of `w'` are those of `w` and at most one fresh one, which has memory for no
more than `n` units. -/
def Joins (n : Nat) (w w' : Workspace) : Prop :=
  ∀ id, w'.builderAt? id = w.builderAt? id ∨
    w.builderAt? id = none ∧ ∃ r p, r.Fresh n ∧ w'.builderAt? id = some (.ofRegion r p)

theorem joins_addBuilder (w : Workspace) {r : Region} (hr : r.ownership ≠ .released)
    (p : OverflowPolicy) : Joins r.capacity w (w.addBuilder (.ofRegion r p)).2 := by
  intro id
  simp only [addBuilder, builderAt?, Array.getElem?_push]
  by_cases h : id.index = w.tenants.size
  · rw [if_pos h, Array.getElem?_eq_none (by omega)]
    exact .inr ⟨rfl, r, p, ⟨Nat.le_refl _, hr⟩, rfl⟩
  · rw [if_neg h]
    exact .inl rfl

theorem joins_takeFrom (w : Workspace) (name : String) (p : Pool BuilderId) :
    Joins p.asks w (w.takeFrom name p).2 := by
  unfold takeFrom Pool.take Pool.asks
  cases p.idle with
  | nil =>
      have hjoins := joins_addBuilder w (Region.allocate_ownership p.options.builder.capacity)
        p.options.builder.policy
      rwa [Region.capacity_allocate] at hjoins
  | cons id rest => exact fun _ => .inl rfl

/-- Every builder of `w'` was handled from a builder of `w` or from a fresh one, which has
memory for no more than `n` units. -/
def Tended (n : Nat) (w w' : Workspace) : Prop :=
  ∀ id, ∃ o, (o = w.builderAt? id ∨
      w.builderAt? id = none ∧ ∃ r p, r.Fresh n ∧ o = some (.ofRegion r p)) ∧
    Option.Rel Builder.Handled o (w'.builderAt? id)

/-- Every builder of `w'` was returned from a builder of `w` or from a fresh one, which has
memory for no more than `n` units: nothing was appended to it. -/
def Moved (n : Nat) (w w' : Workspace) : Prop :=
  ∀ id, ∃ o, (o = w.builderAt? id ∨
      w.builderAt? id = none ∧ ∃ r p, r.Fresh n ∧ o = some (.ofRegion r p)) ∧
    Option.Rel Builder.Returned o (w'.builderAt? id)

theorem Moved.tended (h : Moved n w w') : Tended n w w' := by
  intro id
  obtain ⟨o, ho, hr⟩ := h id
  exact ⟨o, ho, Slot.mono (fun _ _ hr => hr.handled) hr⟩

/-- What happens to the builders after one has joined them happens to all of them, or to the
fresh one. -/
theorem Joins.rel {R : Builder → Builder → Prop} {w₁ w₂ w₃ : Workspace} (h : Joins n w₁ w₂)
    (hr : ∀ id, Option.Rel R (w₂.builderAt? id) (w₃.builderAt? id)) (id : BuilderId) :
    ∃ o, (o = w₁.builderAt? id ∨
        w₁.builderAt? id = none ∧ ∃ r p, r.Fresh n ∧ o = some (.ofRegion r p)) ∧
      Option.Rel R o (w₃.builderAt? id) := by
  rcases h id with he | ⟨hn, r, p, hfresh, he⟩
  · exact ⟨_, .inl he, hr id⟩
  · exact ⟨_, .inr ⟨hn, r, p, hfresh, he⟩, hr id⟩

theorem Joins.disposes {w₁ w₂ w₃ : Workspace} (h : Joins n w₁ w₂) (hd : Disposes w₂ w₃) :
    Moved n w₁ w₃ :=
  h.rel fun id => Slot.mono (fun _ _ hr => hr.returned) (hd id)

theorem Disposes.moved (h : Disposes w w') : Moved n w w' :=
  Joins.disposes (fun _ => .inl rfl) h

theorem moved_addNamed (w : Workspace) (name : String) {r : Region}
    (hr : r.ownership ≠ .released) (p : OverflowPolicy) :
    Moved r.capacity w (w.addNamed name (.ofRegion r p)).2 :=
  (joins_addBuilder w hr p).disposes (disposes_nameBuilder _ name _)

/-- A builder is changed before something else happens to all of them. -/
theorem rel_setBuilder {R S : Builder → Builder → Prop} {id : BuilderId} {b b₁ : Builder}
    (hb : w.builderAt? id = some b) (hchanged : ∀ b', R b₁ b' → S b b')
    (hother : ∀ b₀ b', R b₀ b' → S b₀ b')
    (h : ∀ id', Option.Rel R ((w.setBuilder id b₁).builderAt? id') (w'.builderAt? id'))
    (id' : BuilderId) : Option.Rel S (w.builderAt? id') (w'.builderAt? id') := by
  -- `h` starts from `b₁` at the number of the changed builder, and from `w` elsewhere.
  have hid := h id'
  rw [builderAt?_setBuilder] at hid
  by_cases he : id' = id
  · subst he
    rw [if_pos rfl, hb] at hid
    rw [hb]
    cases ho : w'.builderAt? id' with
    | none => rw [ho] at hid; cases hid
    | some b' =>
        rw [ho] at hid
        cases hid with
        | some hr => exact .some (hchanged b' hr)
  · rw [if_neg he] at hid
    exact Slot.mono hother hid

theorem returned_giveBackTo (w : Workspace) (name : String) (p : Pool BuilderId)
    (id id' : BuilderId) :
    Option.Rel Builder.Returned (w.builderAt? id') ((w.giveBackTo name p id).builderAt? id') := by
  unfold giveBackTo
  split
  · exact Slot.refl Builder.Returned.refl _
  · next b hb =>
      have hclear : ∀ b', Builder.Discarded b.clear b' → Builder.Returned b b' :=
        fun b' hd => ⟨b.clear, .inr rfl, hd⟩
      have hother : ∀ b₀ b', Builder.Discarded b₀ b' → Builder.Returned b₀ b' :=
        fun _ _ hd => hd.returned
      split
      · exact Slot.refl Builder.Returned.refl _
      · exact Slot.mono hother (disposes_disposeBuilder w id id')
      · exact rel_setBuilder hb hclear hother (disposes_disposeBuilder _ id) id'
      · have hset : Disposes (w.setBuilder id b.clear)
            ((w.setBuilder id b.clear).setPool name (p.put id)) := .of_eq rfl
        exact rel_setBuilder hb hclear hother hset id'

/-! ## §4. One step. -/

/-- The workspace after a step; a refused step changes nothing. -/
def after (w : Workspace) (s : Step) : Workspace :=
  match w.step s with
  | .ok (_, w') => w'
  | .error _ => w

theorem after_of_step {s : Step} {r : Reply} (h : w.step s = .ok (r, w')) : w.after s = w' := by
  rw [after, h]

@[simp] theorem run_nil (w : Workspace) : w.run [] = w := rfl

@[simp] theorem run_cons (w : Workspace) (s : Step) (rest : List Step) :
    w.run (s :: rest) = (w.after s).run rest := rfl

theorem run_append (w : Workspace) (steps later : List Step) :
    w.run (steps ++ later) = (w.run steps).run later := List.foldl_append ..

theorem run_snoc (w : Workspace) (steps : List Step) (s : Step) :
    w.run (steps ++ [s]) = (w.run steps).after s := run_append w steps [s]

/-- The number of units that a step needs memory for, in addition to what there is. -/
def Step.asks (w : Workspace) : Step → Nat
  | .newBuilder _ o => o.capacity
  | .borrow _ memory _ => memory.length
  | .allocate _ capacity => capacity
  | .take p _ | .rent p _ _ => ((w.poolNames.get? p).map (·.asks)).getD 0
  | _ => 0

theorem asks_of_pool {p : String} {pool : Pool BuilderId} (h : w.pool p = .ok pool) :
    ((w.poolNames.get? p).map (·.asks)).getD 0 = pool.asks := by
  unfold Workspace.pool at h
  split at h
  · next P hP => cases h; rw [hP]; rfl
  · cases h

theorem moved_take {p b : String} {pool : Pool BuilderId} :
    Moved pool.asks w ((w.takeFrom p pool).2.nameBuilder b (w.takeFrom p pool).1) :=
  (joins_takeFrom w p pool).disposes (disposes_nameBuilder _ b _)

/-- Where a builder goes that was rented and appended to. -/
def afterRent (w : Workspace) (p : String) (pool : Pool BuilderId) (id : BuilderId) :
    Option String → Workspace
  | some name => w.nameBuilder name id
  | none => w.giveBackTo p pool id

theorem rent_eq_ok {p t : String} {keep : Option String} {r : Reply}
    (h : w.step (.rent p t keep) = .ok (r, w')) :
    ∃ pool pool₁ b, w.pool p = .ok pool ∧ (w.takeFrom p pool).2.pool p = .ok pool₁ ∧
      (w.takeFrom p pool).2.builderAt? (w.takeFrom p pool).1 = some b ∧
      r = .rented (.ofAppend (b.appendText t).1) (b.appendText t).2 pool₁.size ∧
      w' = ((w.takeFrom p pool).2.setBuilder (w.takeFrom p pool).1 (b.appendText t).2).afterRent
        p pool₁ (w.takeFrom p pool).1 keep := by
  obtain ⟨pool, hpool, h⟩ := ok_of_bind h
  obtain ⟨pool₁, hpool₁, h⟩ := ok_of_bind h
  split at h
  · cases h
  · next b hb =>
      cases h
      refine ⟨pool, pool₁, b, hpool, hpool₁, hb, rfl, ?_⟩
      cases keep with
      | some name => rfl
      | none => rfl

theorem tended_rent {p t : String} {keep : Option String} {r : Reply}
    (h : w.step (.rent p t keep) = .ok (r, w')) : Tended (Step.asks w (.rent p t keep)) w w' := by
  obtain ⟨pool, pool₁, b, hpool, -, hb, -, rfl⟩ := rent_eq_ok h
  have happ : ∀ b', Builder.Returned (b.appendText t).2 b' → Builder.Handled b b' :=
    fun b' hr => ⟨_, .inr ⟨t, rfl⟩, hr⟩
  have hother : ∀ b₀ b', Builder.Returned b₀ b' → Builder.Handled b₀ b' :=
    fun _ _ hr => hr.handled
  rw [Step.asks, asks_of_pool hpool]
  apply (joins_takeFrom w p pool).rel
  -- The rented builder is appended to before it is kept or given back.
  apply rel_setBuilder hb happ hother
  intro id'
  cases keep with
  | some name =>
      exact Slot.mono (fun _ _ hd => hd.returned) (disposes_nameBuilder _ name _ id')
  | none => exact returned_giveBackTo _ p pool₁ _ id'

theorem builderAt?_takeSnapshot (w : Workspace) (id id' : BuilderId) (t : Tenant) :
    (w.takeSnapshot id t).2.builderAt? id' = w.builderAt? id' := by
  unfold takeSnapshot
  split
  · rfl
  · simp only [addSnapshot, builderAt?, Array.getElem?_modify]
    split
    · rw [Option.map_map]; rfl
    · rfl

theorem tenants_look (w : Workspace) (id : SnapshotId) (s : Snapshot) (l : Look) :
    (w.look id s l).2.tenants = w.tenants := by
  cases l <;> simp only [look] <;> split <;> rfl

/-- An access changes nothing but regions. -/
theorem access_cases {i : Nat} {g : Region} {a : Access} {r : Reply}
    (h : w.access i g a = .ok (r, w')) : ∃ regions, w' = { w with regions := regions } := by
  cases a with
  | release => cases h; exact ⟨_, rfl⟩
  | copyFrom j source lo hi =>
      obtain ⟨_, _, h⟩ := ok_of_bind h
      dsimp only at h
      split at h <;> cases h
      exact ⟨_, rfl⟩
  | _ =>
      -- Each of the others does one thing to the region, and fails or not by that alone.
      simp only [access] at h
      split at h <;> cases h
      exact ⟨_, rfl⟩

/-- **A step that neither edits nor rents** writes nothing: it clears and disposes builders, and
adds what it asks memory for. -/
theorem moved_step {s : Step} {r : Reply} (h : w.step s = .ok (r, w'))
    (hs : ∀ name e, s ≠ .edit name e) (hrent : ∀ p t keep, s ≠ .rent p t keep) :
    Moved (s.asks w) w w' := by
  have hsame {n : Nat} {w' : Workspace} (ht : w'.tenants = w.tenants) : Moved n w w' :=
    Disposes.moved (.of_eq ht)
  cases s with
  | edit name e => exact absurd rfl (hs name e)
  | rent p t keep => exact absurd rfl (hrent p t keep)
  | newBuilder b o =>
      cases h
      have ht := moved_addNamed w b (Region.allocate_ownership o.capacity) o.policy
      rwa [Region.capacity_allocate] at ht
  | borrow b memory policy =>
      cases h
      exact (joins_addBuilder w (Region.adopt_ownership memory) policy).disposes
        ((disposes_nameBuilder _ b _).trans (.of_eq rfl))
  | dropBuilder b =>
      obtain ⟨id, _, h⟩ := ok_of_bind h
      cases h
      have hun : Disposes w (w.unnameBuilder b) := .of_eq rfl
      exact (hun.trans (disposes_disposeBuilder _ id)).moved
  | snap b keep =>
      obtain ⟨v, _, h⟩ := ok_of_bind h
      cases h
      intro id
      refine ⟨_, .inl rfl, ?_⟩
      show Option.Rel _ (w.builderAt? id) ((w.takeSnapshot v.1 v.2).2.builderAt? id)
      rw [builderAt?_takeSnapshot]
      exact Slot.refl Builder.Returned.refl _
  | ofUnits s us => cases h; exact hsame rfl
  | ofText s t => cases h; exact hsame rfl
  | ofSegment s us start length => simp only [step] at h; split at h <;> cases h; exact hsame rfl
  | clone s source =>
      obtain ⟨_, _, h⟩ := ok_of_bind h
      cases h
      exact hsame rfl
  | dropSnapshot s =>
      obtain ⟨_, _, h⟩ := ok_of_bind h
      cases h
      exact hsame rfl
  | look s l =>
      obtain ⟨v, _, h⟩ := ok_of_bind h
      have ht := tenants_look w v.1 v.2 l
      simp only [Except.ok.injEq] at h
      rw [h] at ht
      exact hsame ht
  | newPool p o =>
      cases h
      have hset : Disposes w (w.setPool p (.new o)) := .of_eq rfl
      exact (hset.trans (disposes_foldl _ _)).moved
  | take p b =>
      obtain ⟨pool, hpool, h⟩ := ok_of_bind h
      cases h
      rw [Step.asks, asks_of_pool hpool]
      exact moved_take
  | giveBack p b =>
      obtain ⟨pool, _, h⟩ := ok_of_bind h
      obtain ⟨id, _, h⟩ := ok_of_bind h
      cases h
      have hun : Joins 0 w (w.unnameBuilder b) := fun _ => .inl rfl
      exact hun.rel (returned_giveBackTo _ p pool id)
  | allocate g capacity => cases h; exact hsame rfl
  | adopt g memory => cases h; exact hsame rfl
  | access g a =>
      obtain ⟨_, _, h⟩ := ok_of_bind h
      obtain ⟨_, rfl⟩ := access_cases h
      exact hsame rfl

/-- **Every step but an edit hands builders around**, and adds what it asks memory for. -/
theorem tended_step {s : Step} {r : Reply} (h : w.step s = .ok (r, w'))
    (hs : ∀ name e, s ≠ .edit name e) : Tended (s.asks w) w w' := by
  by_cases hrent : ∃ p t keep, s = .rent p t keep
  · obtain ⟨p, t, keep, rfl⟩ := hrent
    exact tended_rent h
  · exact (moved_step h hs fun p t keep he => hrent ⟨p, t, keep, he⟩).tended

theorem builderAt?_disposeBuilder {id : BuilderId} {b : Builder} (hb : w.builderAt? id = some b)
    (id' : BuilderId) : (w.disposeBuilder id).builderAt? id' =
      (w.setBuilder id (b.dispose (w.isShared id))).builderAt? id' := by
  rw [builderAt?_setBuilder, hb]
  simp only [disposeBuilder, hb, Option.map_some]
  split
  · next hd =>
      rw [Builder.dispose, if_pos hd]
      by_cases he : id' = id
      · rw [if_pos he, he, hb]
      · rw [if_neg he]
  · by_cases he : id' = id
    · subst he
      rw [if_pos rfl]
      simp only [builderAt?, Option.map_eq_some_iff] at hb ⊢
      obtain ⟨t, ht, -⟩ := hb
      exact ⟨⟨_, none⟩, by rw [Array.getElem?_modify, if_pos rfl, ht]; rfl, rfl⟩
    · have hi := BuilderId.index_ne (Ne.symm he)
      simp only [builderAt?, Array.getElem?_modify, if_neg he, if_neg hi]

/-- **An edit changes its builder and no other one.** -/
theorem builderAt?_edit {id : BuilderId} {t : Tenant} {e : Edit} {r : Reply}
    (hb : w.builderAt? id = some t.builder) (h : w.edit id t e = .ok (r, w')) :
    ∃ b', Builder.Follows (fun n => e.damages t.builder n) t.builder b' ∧
      ∀ id', w'.builderAt? id' = (w.setBuilder id b').builderAt? id' := by
  have hgrown {a : Appended} {o : Except Fault (Reply × Workspace)}
      (hg : Builder.Grown t.builder a.2)
      (ho : .ok (.ofAppend a.1, w.setBuilder id a.2) = o) (h : o = .ok (r, w')) :
      ∃ b', Builder.Follows (fun n => e.damages t.builder n) t.builder b' ∧
        ∀ id', w'.builderAt? id' = (w.setBuilder id b').builderAt? id' := by
    subst ho
    cases h
    exact ⟨a.2, hg.follows, fun _ => rfl⟩
  -- An edit that only reads leaves the builder where it is.
  have hsame (id' : BuilderId) : w.builderAt? id' = (w.setBuilder id t.builder).builderAt? id' := by
    rw [builderAt?_setBuilder, hb]
    by_cases he : id' = id
    · rw [if_pos he, he, hb]; rfl
    · rw [if_neg he]
  cases e with
  | unit u => exact hgrown (t.builder.grown_appendUnits _) rfl h
  | units us => exact hgrown (t.builder.grown_appendUnits _) rfl h
  | char c => exact hgrown (t.builder.grown_appendUnits _) rfl h
  | repeated u n => exact hgrown (t.builder.grown_appendRepeated u n) rfl h
  | text s => exact hgrown (t.builder.grown_appendText s) rfl h
  | bool v => exact hgrown (t.builder.grown_appendText _) rfl h
  | int width n => exact hgrown (t.builder.grown_appendInt width n) rfl h
  | pieces ps complete =>
      cases h
      refine ⟨_, ⟨fun hc => hc.appendPieces ps complete, ?_⟩, fun _ => rfl⟩
      intro n hn _ _
      exact (t.builder.keeps_appendPieces ps complete).of_le hn
  | sink s =>
      cases h
      refine ⟨_, ⟨fun hc => hc.sink s, ?_⟩, fun _ => rfl⟩
      intro n hn _ _
      exact Builder.keeps_sink hn s
  | builder other =>
      obtain ⟨v, _, h⟩ := ok_of_bind h
      exact hgrown (t.builder.grown_appendBuilder v.2.builder) rfl h
  | snapshot name =>
      obtain ⟨v, _, h⟩ := ok_of_bind h
      dsimp only at h
      split at h
      · cases h
        exact ⟨t.builder, .refl _, hsame⟩
      · next seg s _ =>
          cases h
          exact ⟨_, (t.builder.grown_appendUnits seg.units).follows, fun _ => rfl⟩
  | terminate =>
      cases h
      exact ⟨_, t.builder.follows_terminate, fun _ => rfl⟩
  | clear =>
      cases h
      exact ⟨_, t.builder.follows_clear, fun _ => rfl⟩
  | dispose =>
      cases h
      have hd : Builder.Discarded t.builder (t.builder.dispose (w.isShared id)) := .inr ⟨_, rfl⟩
      exact ⟨_, hd.returned.handled.follows, builderAt?_disposeBuilder hb⟩
  | truncate n =>
      cases h
      exact ⟨_, t.builder.follows_truncate n, fun _ => rfl⟩
  | get i =>
      simp only [edit] at h
      split at h <;> cases h
      exact ⟨t.builder, .refl _, hsame⟩
  | set i u =>
      simp only [edit] at h
      split at h
      · next b' hset =>
          cases h
          exact ⟨b', Builder.follows_set hset, fun _ => rfl⟩
      · cases h

/-- The step edits the builder and damages one of its first `n` units. -/
def Step.damages (w : Workspace) (id : BuilderId) (b : Builder) (n : Nat) (s : Step) : Prop :=
  ∃ name e, s = .edit name e ∧ w.builderId name = .ok id ∧ e.damages b n

theorem builderId_eq_ok {name : String} {id : BuilderId} (h : w.builderId name = .ok id) :
    w.builderNames.get? name = some id := by
  unfold builderId at h
  split at h
  · next hid => cases h; exact hid
  · cases h

theorem builder_eq_ok {name : String} {v : BuilderId × Tenant} (h : w.builder name = .ok v) :
    w.builderId name = .ok v.1 ∧ w.tenants[v.1.index]? = some v.2 := by
  obtain ⟨id, hid, h⟩ := ok_of_bind h
  split at h
  · next t ht => cases h; exact ⟨hid, ht⟩
  · cases h

/-- A name that refers to a builder is found with the builder. -/
theorem builder_of_named {name : String} {id : BuilderId} {b : Builder}
    (hid : w.builderNames.get? name = some id) (hb : w.builderAt? id = some b) :
    ∃ t : Tenant, w.builder name = .ok (id, t) ∧ t.builder = b := by
  obtain ⟨t, ht, hbuilder⟩ := Option.map_eq_some_iff.mp hb
  refine ⟨t, ?_, hbuilder⟩
  have hname : w.builderId name = .ok id := by rw [builderId, hid]
  rw [builder, hname]
  dsimp only [bind, Except.bind]
  rw [ht]

theorem builderAt?_of_tenant {id : BuilderId} {t : Tenant} (h : w.tenants[id.index]? = some t) :
    w.builderAt? id = some t.builder := by
  rw [builderAt?, h]
  rfl

theorem step_edit {name : String} {id : BuilderId} {t : Tenant} (h : w.builder name = .ok (id, t))
    (e : Edit) : w.step (.edit name e) = w.edit id t e := by
  show w.builder name >>= _ = _
  rw [h]
  rfl

theorem edit_eq_ok {name : String} {e : Edit} {r : Reply}
    (h : w.step (.edit name e) = .ok (r, w')) :
    ∃ v : BuilderId × Tenant, w.builderId name = .ok v.1 ∧
      w.builderAt? v.1 = some v.2.builder ∧ w.edit v.1 v.2 e = .ok (r, w') := by
  obtain ⟨v, hv, h⟩ := ok_of_bind h
  obtain ⟨hname, ht⟩ := builder_eq_ok hv
  exact ⟨v, hname, builderAt?_of_tenant ht, h⟩

/-- **A step leaves every builder there**, and what it makes of it follows from what
it was. -/
theorem builderAt?_after {id : BuilderId} {b : Builder} (s : Step) (hb : w.builderAt? id = some b) :
    ∃ b', (w.after s).builderAt? id = some b' ∧ Builder.Follows (s.damages w id b) b b' := by
  cases hs : w.step s with
  | error e =>
      rw [after, hs]
      exact ⟨b, hb, .refl b⟩
  | ok o =>
      obtain ⟨r, w'⟩ := o
      rw [after_of_step hs]
      by_cases he : ∃ name e, s = .edit name e
      · obtain ⟨name, e, rfl⟩ := he
        obtain ⟨v, hname, hv, hedit⟩ := edit_eq_ok hs
        obtain ⟨b', hf, hw'⟩ := builderAt?_edit hv hedit
        rw [hw', builderAt?_setBuilder]
        by_cases hid : id = v.1
        · subst hid
          rw [if_pos rfl, hv]
          rw [hb] at hv
          cases hv
          refine ⟨b', rfl, hf.consistent, fun n hn hsafe hver => ?_⟩
          exact hf.keeps n hn (fun hd => hsafe ⟨name, e, rfl, hname, hd⟩) hver
        · rw [if_neg hid]
          exact ⟨b, hb, .refl b⟩
      · -- No other step damages units, so `Follows` asks nothing of `n` here.
        have ht := tended_step hs fun name e h => he ⟨name, e, h⟩
        obtain ⟨o, ho, hrel⟩ := ht id
        rcases ho with rfl | ⟨hn, -⟩
        · rw [hb] at hrel
          revert hrel
          cases w'.builderAt? id with
          | none => intro hrel; cases hrel
          | some b' =>
              intro hrel
              cases hrel with
              | some hh => exact ⟨b', rfl, hh.follows⟩
        · rw [hb] at hn
          cases hn

/-- A builder that a step adds publishes its own length and version. -/
theorem consistent_fresh {s : Step} {id : BuilderId} {b' : Builder}
    (hn : w.builderAt? id = none) (hb' : (w.after s).builderAt? id = some b') : b'.Consistent := by
  cases hs : w.step s with
  | error e =>
      rw [after, hs] at hb'
      rw [hn] at hb'
      cases hb'
  | ok o =>
      obtain ⟨r, w'⟩ := o
      rw [after_of_step hs] at hb'
      by_cases he : ∃ name e, s = .edit name e
      · -- An edit adds no builder.
        obtain ⟨name, e, rfl⟩ := he
        obtain ⟨v, -, hv, hedit⟩ := edit_eq_ok hs
        obtain ⟨b₁, -, hw'⟩ := builderAt?_edit hv hedit
        rw [hw', builderAt?_setBuilder] at hb'
        by_cases hid : id = v.1
        · rw [hid, hv] at hn
          cases hn
        · rw [if_neg hid, hn] at hb'
          cases hb'
      · obtain ⟨o, ho, hrel⟩ := tended_step hs (fun name e h => he ⟨name, e, h⟩) id
        rw [hb'] at hrel
        rcases ho with rfl | ⟨-, r, p, -, rfl⟩
        · rw [hn] at hrel
          cases hrel
        · cases hrel with
          | some hh => exact hh.consistent (Builder.consistent_ofRegion r p)

/-! ## §5. Runs. -/

/-- Every builder publishes its own length and version. -/
def Consistent (w : Workspace) : Prop := ∀ id b, w.builderAt? id = some b → b.Consistent

theorem Consistent.after (h : w.Consistent) (s : Step) : (w.after s).Consistent := by
  intro id b' hb'
  cases hb : w.builderAt? id with
  | none => exact consistent_fresh hb hb'
  | some b =>
      obtain ⟨b₁, hb₁, hf⟩ := builderAt?_after s hb
      rw [hb'] at hb₁
      cases hb₁
      exact hf.consistent (h id b hb)

theorem Consistent.run (h : w.Consistent) (steps : List Step) : (w.run steps).Consistent := by
  induction steps generalizing w with
  | nil => exact h
  | cons s rest ih => exact ih (h.after s)

/-- **Every builder of a session publishes its own length and version.** -/
theorem consistent_run (steps : List Step) : (run {} steps).Consistent := by
  refine Consistent.run ?_ steps
  intro id b hb
  simp [builderAt?] at hb

/-- How often the version of a builder moves on during a run. -/
def clears (id : BuilderId) (w : Workspace) : List Step → Nat
  | [] => 0
  | s :: rest =>
      (((w.after s).see id).version - (w.see id).version).toNat + clears id (w.after s) rest

/-- No edit of the run damages one of the first `n` units of the builder while it
has version `v`. -/
def Undamaged (id : BuilderId) (v : UInt64) (n : Nat) (w : Workspace) (steps : List Step) : Prop :=
  ∀ before name e later b, steps = before ++ .edit name e :: later →
    (w.run before).builderId name = .ok id → (w.run before).builderAt? id = some b →
    b.version = v → ¬ e.damages b n

variable {id : BuilderId} {v : UInt64} {n : Nat} {b : Builder} {s : Step} {steps later : List Step}

theorem Undamaged.left (h : Undamaged id v n w (steps ++ later)) : Undamaged id v n w steps := by
  intro before name e rest b hsteps
  exact h before name e (rest ++ later) b (by rw [hsteps]; simp)

theorem Undamaged.right (h : Undamaged id v n w (steps ++ later)) :
    Undamaged id v n (w.run steps) later := by
  intro before name e rest b hlater
  rw [← run_append]
  exact h (steps ++ before) name e rest b (by rw [hlater]; simp)

theorem Undamaged.tail (h : Undamaged id v n w (s :: steps)) :
    Undamaged id v n (w.after s) steps := by
  have happ : Undamaged id v n w ([s] ++ steps) := h
  exact happ.right

theorem Undamaged.head (h : Undamaged id v n w (s :: steps)) (hb : w.builderAt? id = some b)
    (hv : b.version = v) : ¬ s.damages w id b n := by
  rintro ⟨name, e, rfl, hname, hd⟩
  exact h [] name e steps b rfl hname hb hv hd

theorem clears_append (id : BuilderId) (later steps : List Step) : ∀ w : Workspace,
    clears id w (steps ++ later) = clears id w steps + clears id (w.run steps) later := by
  induction steps with
  | nil => intro w; simp [clears]
  | cons s rest ih =>
      intro w
      simp only [List.cons_append, clears, run_cons, ih]
      omega

theorem version_run (id : BuilderId) (steps : List Step) : ∀ w : Workspace,
    ((w.run steps).see id).version = (w.see id).version + UInt64.ofNat (clears id w steps) := by
  induction steps with
  | nil => intro w; simp [clears]
  | cons s rest ih =>
      intro w
      rw [run_cons, ih, clears, UInt64.ofNat_add, UInt64.ofNat_toNat, ← UInt64.add_assoc]
      congr 1
      grind

/-- A version that was left and reached again was moved on `2 ^ 64` times at least. -/
theorem clears_eq_zero (hv : ((w.run steps).see id).version = (w.see id).version)
    (hc : clears id w steps < 2 ^ 64) : clears id w steps = 0 := by
  have hrun := version_run id steps w
  rw [hv] at hrun
  -- The version is counted modulo `2 ^ 64`, and `hc` is below that.
  have hzero : UInt64.ofNat (clears id w steps) = 0 := by grind
  have hnat := congrArg UInt64.toNat hzero
  rwa [UInt64.toNat_ofNat_of_lt' hc] at hnat

theorem see_of_builderAt? (h : w.builderAt? id = some b) : w.see id = b.published := by
  rw [see, h]

/-- While the version stands still, what is not damaged is kept. -/
theorem keeps_of_still (steps : List Step) : ∀ {w : Workspace} {b : Builder}, w.Consistent →
    w.builderAt? id = some b → n ≤ b.length → clears id w steps = 0 →
    Undamaged id b.version n w steps →
    ∃ b', (w.run steps).builderAt? id = some b' ∧ Builder.Keeps n b b' := by
  -- Induction on the run: a version that moves on zero times in all does so at each step.
  induction steps with
  | nil => intro w b _ hb hn _ _; exact ⟨b, hb, .refl hn⟩
  | cons s rest ih =>
      intro w b hw hb hn hc hu
      obtain ⟨b₁, hb₁, hf⟩ := builderAt?_after s hb
      simp only [clears, Nat.add_eq_zero_iff] at hc
      have hv : b₁.version = b.version := by
        have hsee := congrArg UInt64.ofNat hc.1
        rw [UInt64.ofNat_toNat, see_of_builderAt? hb, see_of_builderAt? hb₁, (hw id b hb).version,
          (hw.after s id b₁ hb₁).version] at hsee
        grind
      have hk := hf.keeps n hn (hu.head hb rfl) hv
      have hrest : Undamaged id b₁.version n (w.after s) rest := by
        rw [hv]
        exact hu.tail
      obtain ⟨b', hb', hk'⟩ := ih (hw.after s) hb₁ hk.length hc.2 hrest
      exact ⟨b', hb', hk.trans hk'⟩

/-- **A run keeps what it does not damage**: the builder has its version still, its
version did not come round, and no edit reached into its first `n` units. -/
theorem keeps_run {b' : Builder} (hw : w.Consistent) (hb : w.builderAt? id = some b)
    (hb' : (w.run steps).builderAt? id = some b') (hv : b'.version = b.version)
    (hn : n ≤ b.length) (hc : clears id w steps < 2 ^ 64)
    (hu : Undamaged id b.version n w steps) : Builder.Keeps n b b' := by
  have hsee : ((w.run steps).see id).version = (w.see id).version := by
    rw [see_of_builderAt? hb, see_of_builderAt? hb', (hw id b hb).version,
      (hw.run steps id b' hb').version, hv]
  obtain ⟨b₁, hb₁, hk⟩ := keeps_of_still steps hw hb hn (clears_eq_zero hsee hc) hu
  rw [hb'] at hb₁
  cases hb₁
  exact hk

end Workspace
end ValueText
