/-
  ValueText.Proofs.Buffer.Reuse — a builder out of a pool answers like a new one.

  The same steps are run in two workspaces that mirror each other: in the first one the
  builder came out of a pool, in the second one it is new.

  Main results:

    • `Mirrors.step`       one step is answered the same in both, and leaves them mirrored;
    • `Mirrors.run`        so is a run;
    • `Waiting.mirrors`    the workspaces mirror each other when the builder is taken;
    • `rent_eq_take`       renting is taking and appending;
    • `reused_as_new`      what a builder out of a pool answers, compared to a new one.

  The last comes with two sessions in which the two are told apart.
-/
import ValueText.Proofs.Buffer.Mirroring

namespace ValueText

namespace Workspace

section Reusing

variable {c : Comparison} {σ : SnapshotId → SnapshotId → Prop} {F : SnapshotId → Prop}
  {W : Nat → Prop} {w₁ w₂ : Workspace} {id : BuilderId} {t₁ t₂ : Tenant}

/-! ## §1. One step. -/

/-- The workspace that a step leaves; a refused one leaves what was there. -/
def settle (w : Workspace) : Except Fault (Reply × Workspace) → Workspace
  | .ok (_, w') => w'
  | .error _ => w

/-- Two steps are answered the same and leave workspaces that mirror each other. -/
structure Echoes (c : Comparison) (F : SnapshotId → Prop) (W : Nat → Prop) (w₁ w₂ : Workspace)
    (x₁ x₂ : Except Fault (Reply × Workspace)) : Prop where
  answer : x₁.map (·.1) = x₂.map (·.1)
  mirrors : ∃ σ, Mirrors c σ F W (settle w₁ x₁) (settle w₂ x₂)

theorem Mirrors.echoes {w₁' w₂' : Workspace} (h : Mirrors c σ F W w₁' w₂') (r : Reply) :
    Echoes c F W w₁ w₂ (.ok (r, w₁')) (.ok (r, w₂')) := ⟨rfl, σ, h⟩

theorem Mirrors.refused (h : Mirrors c σ F W w₁ w₂) (f : Fault) :
    Echoes c F W w₁ w₂ (.error f) (.error f) := ⟨rfl, σ, h⟩

/-- The edit stores a unit at the index of its builder `b`, whatever it takes back later. -/
def Edit.writes (w : Workspace) (id : BuilderId) (b : Builder) (i : Nat) : Edit → Prop
  | .set j _ => i = j
  | .terminate => b.TerminatedAt i
  | .pieces ps complete => b.length ≤ i ∧ i < (b.sinkAll ps complete).2.length
  | e => b.length ≤ i ∧ i < (w.edited id b e).length

namespace Mirrors

variable {P : Nat → Prop}

/-- What was written once more, as far as it is kept track of. -/
theorem written_or (id : BuilderId) (i : Nat) :
    c.written (fun i => W i ∨ id = c.old ∧ P i) id i ↔ c.written W id i ∨ P i := by
  unfold Comparison.written
  by_cases hid : id = c.old
  · simp [hid]
  · simp [hid]

/-- An edit whose answers on both sides match. -/
theorem set (h : Mirrors c σ F W w₁ w₂) {b₁ b₂ : Builder}
    (hb : Builder.Alike (c.gapOf id) (fun i => c.written W id i ∨ P i) b₁ b₂) :
    Mirrors c σ F (fun i => W i ∨ id = c.old ∧ P i) (w₁.setBuilder id b₁)
      (w₂.setBuilder (c.rename id) b₂) := by
  refine h.setBuilder ?_ (hb.congr (written_or id))
  by_cases hid : id = c.old
  · exact .inl hid
  · exact .inr fun i => or_iff_left fun hp => hid hp.1

theorem append (h : Mirrors c σ F W w₁ w₂) {r₁ r₂ : Appended}
    (hr : Builder.Match (c.gapOf id) (fun i => c.written W id i ∨ P i) r₁ r₂) :
    Echoes c F (fun i => W i ∨ id = c.old ∧ P i) w₁ w₂ (.ok (.ofAppend r₁.1, w₁.setBuilder id r₁.2))
      (.ok (.ofAppend r₂.1, w₂.setBuilder (c.rename id) r₂.2)) := by
  rw [hr.1]
  exact (h.set hr.2).echoes _

/-- Nothing was written. -/
theorem unwritten (h : Mirrors c σ F W w₁ w₂) (hP : ∀ i, ¬ P i) :
    Mirrors c σ F (fun i => W i ∨ id = c.old ∧ P i) w₁ w₂ :=
  h.congr fun i => or_iff_left fun hp => hP i hp.2

/-- **An edit** other than a look at one index of the memory. -/
theorem edit (h : Mirrors c σ F W w₁ w₂) (hw₁ : w₁.Sound) (hw₂ : w₂.Sound)
    (hk : Kin c σ W w₁.snapshotAt? id t₁ t₂) (e : Edit) (hget : ∀ i, e ≠ .get i)
    (hset : ∀ i u, e ≠ .set i u)
    (hF : ∀ name sid, e = .snapshot name → w₁.snapshotNames.get? name = some sid → ¬ F sid) :
    Echoes c F (fun i => W i ∨ id = c.old ∧ e.writes w₁ id t₁.builder i) w₁ w₂
      (w₁.edit id t₁ e) (w₂.edit (c.rename id) t₂ e) := by
  have hb := hk.builder
  cases e with
  | unit u => exact h.append (hb.appendUnits [u])
  | units us => exact h.append (hb.appendUnits us)
  | char ch => exact h.append (hb.appendUnits _)
  | text s => exact h.append (hb.appendUnits _)
  | bool v => exact h.append (hb.appendUnits _)
  | repeated u n =>
      have hm := hb.appendUnits (List.replicate n u)
      simp only [← Builder.appendRepeated_eq_appendUnits] at hm
      exact h.append hm
  | int width n =>
      have hm := hb.appendUnits
        ((if n < 0 then [0x2D] else []) ++ Builder.lastDigits (width.digitCount n.natAbs) n.natAbs)
      simp only [← Builder.appendInt_eq_appendUnits] at hm
      exact h.append hm
  | pieces ps complete => exact h.append (hb.appendPieces ps complete)
  | sink s =>
      have hm := hb.sink s
      simp only [Workspace.edit]
      rw [← hm.1]
      exact (h.set hm.2).echoes _
  | builder other =>
      show Echoes c F _ w₁ w₂ (w₁.builder other >>= _) (w₂.builder other >>= _)
      rcases h.builder other with ⟨id', u₁, u₂, hu₁, hu₂, hat₁, hat₂, hk'⟩ | ⟨hu₁, hu₂, hn, -⟩
      · rw [hu₁, hu₂]
        have hb₁ := builderAt?_of_tenant hat₁
        have hb₂ := builderAt?_of_tenant hat₂
        have hunits := hk'.builder.units_eq (hw₁.bounded _ _ hb₁) (hw₂.bounded _ _ hb₂)
          (hw₁.whole _ _ hb₁)
        have hm := hb.appendUnits u₁.builder.units
        rw [← Builder.appendBuilder_eq_appendUnits _ (hw₁.bounded _ _ hb₁), hunits,
          ← Builder.appendBuilder_eq_appendUnits _ (hw₂.bounded _ _ hb₂)] at hm
        simp only [Edit.writes, edited, builder?_of_builder hu₁, Option.map_some, Option.getD_some]
        exact h.append hm
      · rw [hu₁, hu₂]
        refine Mirrors.refused (h.unwritten fun i => ?_) _
        simp only [Edit.writes, edited, hn, Option.map_none, Option.getD_none]
        omega
  | snapshot name =>
      show Echoes c F _ w₁ w₂ (w₁.snapshot name >>= _) (w₂.snapshot name >>= _)
      rcases h.snapshot name with ⟨i, j, s₁, s₂, hs₁, hs₂, hp, ht⟩ | ⟨i, s₁, s₂, hs₁, -, hi⟩ | ⟨hs₁, hs₂⟩
      · have hreading := reading?_of_snapshot hs₁
        have hread := ht.readSegment? (h.views hw₁ hw₂)
        rw [hs₁, hs₂]
        simp only [Edit.writes, edited, hreading]
        rcases Slot.cases hread with ⟨he₁, he₂⟩ | ⟨a₁, a₂, he₁, he₂, hseg, htwin⟩
        · simp only [bind, Except.bind, he₁, he₂]
          refine (h.unwritten fun i => ?_).echoes .stale
          simp only [Option.map_none, Option.getD_none]
          omega
        · have hread₁ := h.setSnapshot hp (snapshot_eq_ok hs₁).2 htwin fun hn => by
            rw [← hn, Snapshot.boundTo?, Snapshot.boundTo?, Snapshot.origin_readSegment? he₁]
          have hm := hb.appendUnits a₁.1.units
          simp only [bind, Except.bind, he₁, he₂, ← hseg, hm.1]
          exact (hread₁.set hm.2).echoes _
      · exact absurd hi (hF name i rfl (snapshot_eq_ok hs₁).1)
      · rw [hs₁, hs₂]
        refine Mirrors.refused (h.unwritten fun i => ?_) _
        simp only [Edit.writes, edited, reading?, snapshot?, hs₁, Except.toOption, Option.map_none,
          Option.bind_none, Option.getD_none]
        omega
  | terminate => exact h.append hb.terminate
  | clear =>
      have hclear : Mirrors c σ F W (w₁.setBuilder id t₁.builder.clear)
          (w₂.setBuilder (c.rename id) t₂.builder.clear) :=
        h.setBuilder (.inr fun _ => Iff.rfl) hb.clear
      exact (hclear.unwritten fun i hi => absurd hi.2 (Nat.not_lt_zero i)).echoes .done
  | dispose =>
      refine ((h.disposeBuilder id).unwritten fun i hi => ?_).echoes .done
      have hlength : (t₁.builder.dispose (w₁.isShared id)).length ≤ t₁.builder.length := by
        unfold Builder.dispose
        split
        · exact Nat.le_refl _
        · split <;> exact Nat.zero_le _
      have hi' : t₁.builder.length ≤ i ∧ i < (t₁.builder.dispose (w₁.isShared id)).length := hi
      omega
  | truncate n =>
      have htruncate : Mirrors c σ F W (w₁.setBuilder id (t₁.builder.truncate n))
          (w₂.setBuilder (c.rename id) (t₂.builder.truncate n)) :=
        h.setBuilder (.inr fun _ => Iff.rfl) (hb.truncate n)
      refine (htruncate.unwritten fun i hi => ?_).echoes .done
      have hlength := Builder.length_truncate t₁.builder n
      have hi' : t₁.builder.length ≤ i ∧ i < (t₁.builder.truncate n).length := hi
      rw [hlength] at hi'
      omega
  | get i => exact absurd rfl (hget i)
  | set i u => exact absurd rfl (hset i u)

/-- Reading one unit of the memory changes nothing. -/
theorem edit_get (h : Mirrors c σ F W w₁ w₂) (hk : Kin c σ W w₁.snapshotAt? id t₁ t₂) (i : Nat) :
    (∃ σ', Mirrors c σ' F (fun j => W j ∨ id = c.old ∧ Edit.writes w₁ id t₁.builder j (.get i))
      (settle w₁ (w₁.edit id t₁ (.get i))) (settle w₂ (w₂.edit (c.rename id) t₂ (.get i)))) ∧
    ((t₁.builder.disposed = true → ¬ (c.gapOf id).adrift) →
      (c.written W id i → (w₁.edit id t₁ (.get i)).map (·.1) =
        (w₂.edit (c.rename id) t₂ (.get i)).map (·.1)) ∧
      ((w₁.edit id t₁ (.get i)).map (·.1) = (w₂.edit (c.rename id) t₂ (.get i)).map (·.1) ∨
        ∃ u₁ u₂, (w₁.edit id t₁ (.get i)).map (·.1) = .ok (.unit u₁) ∧
          (w₂.edit (c.rename id) t₂ (.get i)).map (·.1) = .ok (.unit u₂))) := by
  have hsettle (w : Workspace) (id : BuilderId) (t : Tenant) :
      settle w (w.edit id t (.get i)) = w := by
    simp only [Workspace.edit]
    split <;> rfl
  refine ⟨⟨σ, ?_⟩, fun ha => ?_⟩
  · rw [hsettle, hsettle]
    refine h.unwritten fun j hj => ?_
    simp only [Edit.writes, edited] at hj
    omega
  · obtain ⟨hequal, hsome⟩ := hk.builder.get? ha i
    refine ⟨fun hi => ?_, ?_⟩
    · simp only [Workspace.edit, hequal hi]
      cases t₂.builder.get? i <;> rfl
    · simp only [Workspace.edit]
      rcases Slot.cases hsome with ⟨h₁, h₂⟩ | ⟨u₁, u₂, h₁, h₂, -⟩
      · rw [h₁, h₂]
        exact .inl rfl
      · rw [h₁, h₂]
        exact .inr ⟨u₁, u₂, rfl, rfl⟩

/-- Storing one unit in the memory. -/
theorem edit_set (h : Mirrors c σ F W w₁ w₂) (h₁ : w₁.tenants[id.index]? = some t₁)
    (h₂ : w₂.tenants[(c.rename id).index]? = some t₂) (hk : Kin c σ W w₁.snapshotAt? id t₁ t₂)
    (i : Nat) (u : CodeUnit) :
    (∃ σ', Mirrors c σ' F (fun j => W j ∨ id = c.old ∧ Edit.writes w₁ id t₁.builder j (.set i u))
      (settle w₁ (w₁.edit id t₁ (.set i u))) (settle w₂ (w₂.edit (c.rename id) t₂ (.set i u)))) ∧
    ((t₁.builder.disposed = true → ¬ (c.gapOf id).adrift) →
      (w₁.edit id t₁ (.set i u)).map (·.1) = (w₂.edit (c.rename id) t₂ (.set i u)).map (·.1)) := by
  have hsettle {w : Workspace} {id : BuilderId} {t : Tenant} (ht : w.tenants[id.index]? = some t) :
      settle w (w.edit id t (.set i u)) = w.setBuilder id ((t.builder.set? i u).getD t.builder) := by
    simp only [Workspace.edit]
    cases t.builder.set? i u with
    | none => exact (setBuilder_self ht).symm
    | some b => rfl
  refine ⟨⟨σ, ?_⟩, fun ha => ?_⟩
  · rw [hsettle h₁, hsettle h₂]
    exact h.set (hk.builder.set? i u)
  · have hanswer (w : Workspace) (id : BuilderId) (t : Tenant) :
        (w.edit id t (.set i u)).map (·.1) =
          if (t.builder.set? i u).isSome then .ok .done else .error .outOfRange := by
      simp only [Workspace.edit]
      cases t.builder.set? i u <;> rfl
    rw [hanswer, hanswer, hk.builder.set?_isSome ha i u]

/-- What a look leaves that shows something and keeps it. -/
def keep {α : Type} (w : Workspace) (i : SnapshotId) (reply : α → Reply) :
    Option (α × Snapshot) → Reply × Workspace
  | some (v, s) => (reply v, w.setSnapshot i s)
  | none => (.stale, w)

/-- **A look at paired snapshots.** -/
theorem look (h : Mirrors c σ F W w₁ w₂) (hw₁ : w₁.Sound) (hw₂ : w₂.Sound) {i j : SnapshotId}
    {s₁ s₂ : Snapshot} (hp : σ i j) (hs₁ : w₁.snapshotAt? i = some s₁)
    (ht : Snapshot.Twin c.rename c.lag s₁ s₂) (l : Look) :
    Echoes c F W w₁ w₂ (.ok (w₁.look i s₁ l)) (.ok (w₂.look j s₂ l)) := by
  have hv := h.views hw₁ hw₂
  have hkept {α : Type} (reply : α → Reply) {x₁ x₂ : Option (α × Snapshot)}
      (hx : Snapshot.Twin.Same c.rename c.lag x₁ x₂)
      (hread : ∀ a, x₁ = some a → Snapshot.Read w₁.see s₁ a.2) :
      Echoes c F W w₁ w₂ (.ok (keep w₁ i reply x₁)) (.ok (keep w₂ j reply x₂)) := by
    cases hx with
    | none => exact h.echoes .stale
    | some hsame =>
        rename_i a₁ a₂
        simp only [keep, hsame.1]
        refine (h.setSnapshot hp hs₁ hsame.2 fun hn => ?_).echoes _
        -- A frozen snapshot stays frozen.
        rcases (hread a₁ rfl).origin with he | hn'
        · rw [← hn, Snapshot.boundTo?, Snapshot.boundTo?, he]
        · exact hn'
  cases l with
  | text | display => exact hkept .text (ht.readText? hv) fun a ha => .text ha
  | array => exact hkept .units (ht.readArray? hv) fun a ha => .array ha
  | segment => exact hkept .segment (ht.readSegment? hv) fun a ha => .segment ha
  | freeze =>
      refine hkept (fun _ : Unit => .flag true) (Snapshot.Twin.same_map (ht.freeze? hv)) fun a ha => ?_
      obtain ⟨s, hs, rfl⟩ := Option.map_eq_some_iff.mp ha
      exact .freeze hs
  | recycle =>
      simp only [Workspace.look]
      rcases Slot.cases (ht.recycle? hv) with ⟨he₁, he₂⟩ | ⟨s₁', s₂', he₁, he₂, ht'⟩
      · rw [he₁, he₂]
        exact h.echoes (.flag false)
      · rw [he₁, he₂]
        refine (h.setSnapshot hp hs₁ ht' fun hn => ?_).echoes (.flag true)
        rw [boundTo?_recycle? he₁, hn]

end Mirrors

/-- The step is one of a builder or a snapshot; it uses no pool and no region. -/
def Step.IsLocal : Step → Prop
  | .newPool .. | .take .. | .giveBack .. | .rent .. => False
  | .allocate .. | .adopt .. | .access .. => False
  | _ => True

/-- The step reads one of the snapshots `F`, or recycles it. -/
def Step.Uses (F : SnapshotId → Prop) (w : Workspace) (s : Step) : Prop :=
  ∃ name sid, ((∃ l, s = .look name l) ∨ ∃ b, s = .edit b (.snapshot name)) ∧
    w.snapshotNames.get? name = some sid ∧ F sid

/-- The step stores a unit at an index of the builder's memory. -/
def Step.Writes (w : Workspace) (id : BuilderId) (s : Step) (i : Nat) : Prop :=
  ∃ name e b, s = .edit name e ∧ w.builderNames.get? name = some id ∧
    w.builderAt? id = some b ∧ Edit.writes w id b i e

/-- The step reads one unit of the builder's memory. -/
def Step.Reads (w : Workspace) (id : BuilderId) (s : Step) (i : Nat) : Prop :=
  ∃ name, s = .edit name (.get i) ∧ w.builderNames.get? name = some id

/-- The step reads or stores one unit of the memory after the builder was disposed. -/
def Step.Haunts (w : Workspace) (id : BuilderId) (s : Step) : Prop :=
  ∃ name b, (∃ i, s = .edit name (.get i) ∨ ∃ u, s = .edit name (.set i u)) ∧
    w.builderNames.get? name = some id ∧ w.builderAt? id = some b ∧ b.disposed = true

/-- What a step is answered. -/
def reply (w : Workspace) (s : Step) : Except Fault Reply := (w.step s).map (·.1)

/-- The answers to a step are the same; but a unit that was not written since may be another
one, and so may what is found in memory that outlives its builder. -/
def SameReply (adrift : Prop) (W : Nat → Prop) (id : BuilderId) (w₁ w₂ : Workspace) (s : Step) :
    Prop :=
  w₁.reply s = w₂.reply s ∨
    (∃ i u₁ u₂, s.Reads w₁ id i ∧ ¬ W i ∧ w₁.reply s = .ok (.unit u₁) ∧
      w₂.reply s = .ok (.unit u₂)) ∨
    (adrift ∧ s.Haunts w₁ id)

namespace Mirrors

/-- A snapshot that is bound to no builder is a twin of itself. -/
theorem addSnapshotNamed (h : Mirrors c σ F W w₁ w₂) (name : String) {s : Snapshot}
    (hs : s.boundTo? = none) :
    Mirrors c (Pairing σ ⟨w₁.snapshots.size⟩ ⟨w₂.snapshots.size⟩) F W
      (w₁.addSnapshotNamed name s) (w₂.addSnapshotNamed name s) := by
  have hcarry : s.carry c.rename c.lag = s := by
    unfold Snapshot.boundTo? at hs
    unfold Snapshot.carry
    cases ho : s.origin with
    | bound id v n => rw [ho] at hs; cases hs
    | units seg => simp only [← ho]
    | text t => simp only [← ho]
  have htwin := @Snapshot.twin_carry c.rename c.lag s
  rw [hcarry] at htwin
  exact (h.addSnapshot htwin).nameSnapshot name (.inl (.inr ⟨rfl, rfl⟩))

/-- An edit as a step. -/
theorem edit_step (h : Mirrors c σ F W w₁ w₂) (hw₁ : w₁.Sound) (hw₂ : w₂.Sound) {name : String}
    {e : Edit} (hb₁ : w₁.builder name = .ok (id, t₁))
    (hb₂ : w₂.builder name = .ok (c.rename id, t₂)) (ht₁ : w₁.tenants[id.index]? = some t₁)
    (ht₂ : w₂.tenants[(c.rename id).index]? = some t₂) (hk : Kin c σ W w₁.snapshotAt? id t₁ t₂)
    (huses : ¬ (Step.edit name e).Uses F w₁) :
    (∃ σ', Mirrors c σ' (fun i => F i ∧ (w₁.after (.edit name e)).isHeld i = true)
      (fun i => W i ∨ (Step.edit name e).Writes w₁ c.old i) (w₁.after (.edit name e))
      (w₂.after (.edit name e))) ∧
    SameReply c.gap.adrift W c.old w₁ w₂ (.edit name e) := by
  have hname := builderId_eq_ok (builder_eq_ok hb₁).1
  have hat := builderAt?_of_tenant ht₁
  have hs₁ : w₁.step (.edit name e) = w₁.edit id t₁ e := step_edit hb₁ e
  have hs₂ : w₂.step (.edit name e) = w₂.edit (c.rename id) t₂ e := step_edit hb₂ e
  have hwrites (i : Nat) : (Step.edit name e).Writes w₁ c.old i ↔
      id = c.old ∧ Edit.writes w₁ id t₁.builder i e := by
    constructor
    · rintro ⟨name', e', b, he, hn, hb, hi⟩
      cases he
      rw [hname] at hn
      cases hn
      rw [hat] at hb
      cases hb
      exact ⟨rfl, hi⟩
    · rintro ⟨rfl, hi⟩
      exact ⟨name, e, t₁.builder, rfl, hname, hat, hi⟩
  have hdone (hm : ∃ σ', Mirrors c σ' F
      (fun i => W i ∨ id = c.old ∧ Edit.writes w₁ id t₁.builder i e)
      (settle w₁ (w₁.edit id t₁ e)) (settle w₂ (w₂.edit (c.rename id) t₂ e))) :
      ∃ σ', Mirrors c σ' (fun i => F i ∧ (w₁.after (.edit name e)).isHeld i = true)
        (fun i => W i ∨ (Step.edit name e).Writes w₁ c.old i) (w₁.after (.edit name e))
        (w₂.after (.edit name e)) := by
    obtain ⟨σ', hm⟩ := hm
    rw [← hs₁, ← hs₂] at hm
    exact ⟨σ', hm.restrict.congr fun i => or_congr_right (hwrites i)⟩
  have hadrift (ha : (c.gapOf id).adrift) : id = c.old ∧ c.gap.adrift := by
    unfold Comparison.gapOf at ha
    split at ha
    · next hid => exact ⟨hid, ha⟩
    · exact ha.elim
  -- An edit that neither reads nor stores single units shows nothing else.
  have hrest (hget : ∀ i, e ≠ .get i) (hset : ∀ i u, e ≠ .set i u) :
      (∃ σ', Mirrors c σ' (fun i => F i ∧ (w₁.after (.edit name e)).isHeld i = true)
        (fun i => W i ∨ (Step.edit name e).Writes w₁ c.old i) (w₁.after (.edit name e))
        (w₂.after (.edit name e))) ∧
      SameReply c.gap.adrift W c.old w₁ w₂ (.edit name e) := by
    have hx := h.edit hw₁ hw₂ hk e hget hset fun name' sid he hn hf =>
      huses ⟨name', sid, .inr ⟨name, by rw [he]⟩, hn, hf⟩
    refine ⟨hdone hx.mirrors, .inl ?_⟩
    unfold reply
    rw [hs₁, hs₂]
    exact hx.answer
  cases e with
  | get i =>
      obtain ⟨hm, hanswer⟩ := h.edit_get hk i
      refine ⟨hdone hm, ?_⟩
      by_cases hd : t₁.builder.disposed = true ∧ (c.gapOf id).adrift
      · obtain ⟨rfl, ha⟩ := hadrift hd.2
        exact .inr (.inr ⟨ha, name, t₁.builder, ⟨i, .inl rfl⟩, hname, hat, hd.1⟩)
      · obtain ⟨hequal, hloose⟩ := hanswer fun hd₁ hd₂ => hd ⟨hd₁, hd₂⟩
        unfold SameReply reply
        rw [hs₁, hs₂]
        by_cases hi : c.written W id i
        · exact .inl (hequal hi)
        · rcases hloose with he | ⟨u₁, u₂, hu₁, hu₂⟩
          · exact .inl he
          · simp only [Comparison.written, Classical.not_imp] at hi
            obtain ⟨rfl, hi⟩ := hi
            exact .inr (.inl ⟨i, u₁, u₂, ⟨name, rfl, hname⟩, hi, hu₁, hu₂⟩)
  | set i u =>
      obtain ⟨hm, hanswer⟩ := h.edit_set ht₁ ht₂ hk i u
      refine ⟨hdone hm, ?_⟩
      by_cases hd : t₁.builder.disposed = true ∧ (c.gapOf id).adrift
      · obtain ⟨rfl, ha⟩ := hadrift hd.2
        exact .inr (.inr ⟨ha, name, t₁.builder, ⟨i, .inr ⟨u, rfl⟩⟩, hname, hat, hd.1⟩)
      · refine .inl ?_
        unfold reply
        rw [hs₁, hs₂]
        exact hanswer fun hd₁ hd₂ => hd ⟨hd₁, hd₂⟩
  | _ => exact hrest (by simp) (by simp)

/-- **One step** is answered the same in both workspaces and leaves them mirrored. -/
theorem step (h : Mirrors c σ F W w₁ w₂) (hw₁ : w₁.Sound) (hw₂ : w₂.Sound)
    (hF : ∀ i, F i → w₁.isHeld i = true) (hpast : ∀ v, c.past v → (w₁.see c.old).version ≠ v)
    {s : Step} (hlocal : s.IsLocal) (huses : ¬ s.Uses F w₁) :
    (∃ σ', Mirrors c σ' (fun i => F i ∧ (w₁.after s).isHeld i = true)
      (fun i => W i ∨ s.Writes w₁ c.old i) (w₁.after s) (w₂.after s)) ∧
    SameReply c.gap.adrift W c.old w₁ w₂ s := by
  -- A step that edits no builder writes nothing.
  have hother (hs : ∀ name e, s ≠ .edit name e)
      (hx : Echoes c F W w₁ w₂ (w₁.step s) (w₂.step s)) :
      (∃ σ', Mirrors c σ' (fun i => F i ∧ (w₁.after s).isHeld i = true)
        (fun i => W i ∨ s.Writes w₁ c.old i) (w₁.after s) (w₂.after s)) ∧
      SameReply c.gap.adrift W c.old w₁ w₂ s := by
    obtain ⟨σ', hm⟩ := hx.mirrors
    refine ⟨⟨σ', hm.restrict.congr fun i => or_iff_left ?_⟩, .inl hx.answer⟩
    rintro ⟨name, e, -, he, -⟩
    exact hs name e he
  cases s with
  | newPool p o => exact hlocal.elim
  | take p b => exact hlocal.elim
  | giveBack p b => exact hlocal.elim
  | rent p t keep => exact hlocal.elim
  | allocate g capacity => exact hlocal.elim
  | adopt g memory => exact hlocal.elim
  | access g a => exact hlocal.elim
  | newBuilder b o => exact hother (by simp) ((h.addNamed b _).echoes .done)
  | borrow b memory policy =>
      have hadd := h.addNamed b (.borrowing memory policy)
      have hborrow (k₁ k₂ : Table String BuilderId) : Mirrors c σ F W
          { (w₁.addNamed b (.borrowing memory policy)).2 with borrowers := k₁ }
          { (w₂.addNamed b (.borrowing memory policy)).2 with borrowers := k₂ } := { hadd with }
      exact hother (by simp) ((hborrow _ _).echoes .done)
  | dropBuilder b =>
      refine hother (by simp) ?_
      show Echoes c F W w₁ w₂ (w₁.builderId b >>= _) (w₂.builderId b >>= _)
      unfold builderId
      rw [h.names b]
      cases w₁.builderNames.get? b with
      | none => exact h.refused _
      | some id => exact ((h.unnameBuilder b).disposeBuilder id).echoes .done
  | edit name e =>
      rcases h.builder name with ⟨id, t₁, t₂, hb₁, hb₂, ht₁, ht₂, hk⟩ | ⟨hb₁, hb₂, hn, -⟩
      · exact h.edit_step hw₁ hw₂ hb₁ hb₂ ht₁ ht₂ hk huses
      · have hx : Echoes c F W w₁ w₂ (w₁.builder name >>= fun v => w₁.edit v.1 v.2 e)
            (w₂.builder name >>= fun v => w₂.edit v.1 v.2 e) := by
          rw [hb₁, hb₂]
          exact h.refused _
        obtain ⟨σ', hm⟩ := hx.mirrors
        refine ⟨⟨σ', hm.restrict.congr fun i => or_iff_left ?_⟩, .inl hx.answer⟩
        rintro ⟨name', e', b, he, hname, hb, -⟩
        cases he
        rw [builder?, hname, Option.bind_some, hb] at hn
        cases hn
  | snap b keep =>
      refine hother (by simp) ?_
      show Echoes c F W w₁ w₂ (w₁.builder b >>= _) (w₂.builder b >>= _)
      rcases h.builder b with ⟨id, t₁, t₂, hb₁, hb₂, ht₁, ht₂, -⟩ | ⟨hb₁, hb₂, -, -⟩
      · rw [hb₁, hb₂]
        obtain ⟨σ', hm, hp⟩ := h.takeSnapshot hw₁ hw₂ hF hpast ht₁ ht₂
        exact (hm.nameSnapshot keep (.inl hp)).echoes .done
      · rw [hb₁, hb₂]
        exact h.refused _
  | ofUnits s us => exact hother (by simp) ((h.addSnapshotNamed s rfl).echoes .done)
  | ofText s t => exact hother (by simp) ((h.addSnapshotNamed s rfl).echoes .done)
  | ofSegment s us start length =>
      refine hother (by simp) ?_
      simp only [Workspace.step]
      cases Segment.of? us start length with
      | none => exact h.refused _
      | some seg => exact (h.addSnapshotNamed s rfl).echoes .done
  | clone s source =>
      refine hother (by simp) ?_
      show Echoes c F W w₁ w₂ (w₁.snapshot source >>= _) (w₂.snapshot source >>= _)
      rcases h.snapshot source with ⟨i, j, s₁, s₂, hs₁, hs₂, hp, -⟩ | ⟨i, s₁, s₂, hs₁, hs₂, hi⟩ |
        ⟨hs₁, hs₂⟩
      · rw [hs₁, hs₂]
        exact (h.nameSnapshot s (.inl hp)).echoes .done
      · rw [hs₁, hs₂]
        exact (h.nameSnapshot s (.inr ⟨hi, rfl⟩)).echoes .done
      · rw [hs₁, hs₂]
        exact h.refused _
  | dropSnapshot s =>
      refine hother (by simp) ?_
      show Echoes c F W w₁ w₂ (w₁.snapshot s >>= _) (w₂.snapshot s >>= _)
      rcases h.snapshot s with ⟨i, j, s₁, s₂, hs₁, hs₂, -, -⟩ | ⟨i, s₁, s₂, hs₁, hs₂, -⟩ | ⟨hs₁, hs₂⟩
      · rw [hs₁, hs₂]
        exact (h.unnameSnapshot s).echoes .done
      · rw [hs₁, hs₂]
        exact (h.unnameSnapshot s).echoes .done
      · rw [hs₁, hs₂]
        exact h.refused _
  | look s l =>
      refine hother (by simp) ?_
      show Echoes c F W w₁ w₂ (w₁.snapshot s >>= _) (w₂.snapshot s >>= _)
      rcases h.snapshot s with ⟨i, j, s₁, s₂, hs₁, hs₂, hp, ht⟩ | ⟨i, s₁, s₂, hs₁, hs₂, hi⟩ |
        ⟨hs₁, hs₂⟩
      · rw [hs₁, hs₂]
        exact h.look hw₁ hw₂ hp (snapshot_eq_ok hs₁).2 ht l
      · exact absurd ⟨s, i, .inl ⟨l, rfl⟩, (snapshot_eq_ok hs₁).1, hi⟩ huses
      · rw [hs₁, hs₂]
        exact h.refused _

end Mirrors

/-! ## §2. Runs. -/

/-- The steps are those of builders and snapshots, and none of them uses one of the
snapshots `F` as long as it is kept. -/
def Leaves (F : SnapshotId → Prop) (w : Workspace) (steps : List Step) : Prop :=
  ∀ before s rest, steps = before ++ s :: rest →
    s.IsLocal ∧ ¬ s.Uses (fun i => F i ∧ Kept i w before) (w.run before)

/-- Some step of the run stores a unit at an index of the builder's memory. -/
def WrittenSince (id : BuilderId) (w : Workspace) (steps : List Step) (i : Nat) : Prop :=
  ∃ before s rest, steps = before ++ s :: rest ∧ s.Writes (w.run before) id i

variable {w : Workspace} {steps rest : List Step} {s : Step} {i : SnapshotId}

theorem Leaves.left (h : Leaves F w (steps ++ rest)) : Leaves F w steps := by
  intro before s later hsteps
  exact h before s (later ++ rest) (by rw [hsteps]; simp)

/-- Where no name holds one of the snapshots, none of them is used. -/
theorem leaves_of_none (hF : ∀ i, ¬ F i) (hlocal : ∀ s ∈ steps, s.IsLocal) : Leaves F w steps := by
  intro before s rest hsteps
  refine ⟨hlocal s (by rw [hsteps]; simp), ?_⟩
  rintro ⟨name, i, -, -, hi, -⟩
  exact hF i hi

theorem writtenSince_nil (id : BuilderId) (n : Nat) : ¬ WrittenSince id w [] n := by
  rintro ⟨before, s, rest, hsteps, -⟩
  cases before <;> cases hsteps

theorem writtenSince_snoc (id : BuilderId) (n : Nat) : WrittenSince id w (steps ++ [s]) n ↔
    WrittenSince id w steps n ∨ s.Writes (w.run steps) id n := by
  constructor
  · rintro ⟨before, s', rest, hsteps, hw⟩
    rcases rest.eq_nil_or_concat' with rfl | ⟨rest', s'', rfl⟩
    · obtain ⟨rfl, hs⟩ := List.append_inj' hsteps rfl
      cases hs
      exact .inr hw
    · rw [← List.cons_append, ← List.append_assoc] at hsteps
      obtain ⟨rfl, -⟩ := List.append_inj' hsteps rfl
      exact .inl ⟨before, s', rest', rfl, hw⟩
  · rintro (⟨before, s', rest, rfl, hw⟩ | hw)
    · exact ⟨before, s', rest ++ [s], by simp, hw⟩
    · exact ⟨steps, s, [], rfl, hw⟩

theorem Kept.last (h : Kept i w steps) : (w.run steps).isHeld i = true := by
  rw [← List.append_nil steps] at h
  exact (Kept.append steps h).2

/-- A snapshot that a step does not use is kept if a name still holds it. -/
theorem Kept.snoc (h : Kept i w steps) (hs : ∀ name, s = .look name .recycle →
    (w.run steps).snapshotNames.get? name ≠ some i)
    (hheld : ((w.run steps).after s).isHeld i = true) : Kept i w (steps ++ [s]) := by
  induction steps generalizing w with
  | nil => exact ⟨h, hs, hheld⟩
  | cons s' rest ih => exact ⟨h.1, h.2.1, ih h.2.2 hs hheld⟩

namespace Mirrors

/-- **A run** leaves the workspaces mirrored. -/
theorem run (h : Mirrors c σ F W w₁ w₂) (hw₁ : w₁.Sound) (hw₂ : w₂.Sound)
    (hF : ∀ i, F i → w₁.isHeld i = true)
    (hpast : ∀ v, c.past v → ∀ n, n ≤ clears c.old w₁ steps →
      (w₁.see c.old).version + UInt64.ofNat n ≠ v) (hl : Leaves F w₁ steps) :
    ∃ σ', Mirrors c σ' (fun i => F i ∧ Kept i w₁ steps)
      (fun i => W i ∨ WrittenSince c.old w₁ steps i) (w₁.run steps) (w₂.run steps) := by
  induction steps using List.reverseRecOn with
  | nil =>
      have hkept : (fun i => F i ∧ Kept i w₁ []) = F :=
        funext fun i => propext (and_iff_left_of_imp (hF i))
      rw [hkept]
      exact ⟨σ, h.congr fun i => or_iff_left (writtenSince_nil c.old i)⟩
  | append_singleton steps s ih =>
      rw [clears_append] at hpast
      obtain ⟨σ₁, hm⟩ := ih (fun v hv n hn => hpast v hv n (by omega)) hl.left
      obtain ⟨hlocal, huses⟩ := hl steps s [] rfl
      have hnow (v : UInt64) (hv : c.past v) : ((w₁.run steps).see c.old).version ≠ v := by
        rw [version_run]
        exact hpast v hv _ (Nat.le_add_right _ _)
      have hheld (i : SnapshotId) (hi : F i ∧ Kept i w₁ steps) : (w₁.run steps).isHeld i = true :=
        hi.2.last
      obtain ⟨⟨σ₂, hm₂⟩, -⟩ := hm.step (hw₁.run steps) (hw₂.run steps) hheld hnow hlocal huses
      -- What is kept up to here and held after the step is kept.
      have hkept : (fun i => F i ∧ Kept i w₁ (steps ++ [s])) =
          fun i => (F i ∧ Kept i w₁ steps) ∧ ((w₁.run steps).after s).isHeld i = true := by
        funext i
        refine propext ⟨fun hi => ?_, fun hi => ⟨hi.1.1, hi.1.2.snoc ?_ hi.2⟩⟩
        · obtain ⟨hsteps, hlast⟩ := Kept.append steps hi.2
          exact ⟨⟨hi.1, hsteps⟩, hlast.2.2⟩
        · rintro name rfl hname
          exact huses ⟨name, i, .inl ⟨_, rfl⟩, hname, hi.1⟩
      rw [hkept, run_snoc, run_snoc]
      refine ⟨σ₂, hm₂.congr fun i => ?_⟩
      rw [writtenSince_snoc, or_assoc]

end Mirrors

/-! ## §3. A builder that is taken, and one that is made. -/

/-- A name holds the snapshot, which is bound to the builder. -/
def Leftover (w : Workspace) (id : BuilderId) (i : SnapshotId) : Prop :=
  w.isHeld i = true ∧ (w.snapshotAt? i).bind (·.boundTo?) = some id

/-- A snapshot of another builder stands for itself. -/
def Own (w : Workspace) (id : BuilderId) (i j : SnapshotId) : Prop :=
  i = j ∧ ∃ s, w.snapshotAt? i = some s ∧ s.boundTo? ≠ some id

/-- The idle builder `id`, which is `b`, is compared with one that is added to `w`. -/
def taking (w : Workspace) (id : BuilderId) (b : Builder) (clears : Nat)
    (known : id.index < w.tenants.size) : Comparison where
  old := id
  size := w.tenants.size
  gap := ⟨b.version, b.overflows, w.isShared id = true⟩
  past v := ∃ j, 0 < j ∧ j ≤ clears ∧ b.version = v + UInt64.ofNat j
  known := known

theorem Leftover.isShared {w : Workspace} (h : w.Leftover id i) : w.isShared id = true := by
  rw [isShared_eq, List.any_eq_true]
  exact ⟨i, List.contains_iff_mem.mp h.1, decide_eq_true h.2⟩

theorem lt_of_builderAt? {w : Workspace} {b : Builder} (h : w.builderAt? id = some b) :
    id.index < w.tenants.size := by
  by_contra hn
  rw [builderAt?, Array.getElem?_eq_none (by omega)] at h
  cases h

/-- A builder that waited, without an overflow pending, is a new one but for its counters
and for what its memory holds. -/
theorem alike_new {o : PoolOptions} {b : Builder} (hready : b.Ready o) (hwhole : b.Whole)
    (hpending : b.pending = none) (adrift : Prop) :
    Builder.Alike ⟨b.version, b.overflows, adrift⟩ (fun _ => False) b (.new o.builder) := by
  have hnew := Builder.ready_new o
  have hsize : b.region.capacity = (Builder.new o.builder).region.capacity := by
    rw [hwhole.alive hready.disposed, hready.capacity, ← hnew.capacity]
    rfl
  exact ⟨by rw [hready.length]; rfl, by rw [hready.capacity, hnew.capacity],
    by rw [hready.policy, hnew.policy], hpending.symm, hready.disposed.symm,
    (UInt64.zero_add _).symm, (UInt64.zero_add _).symm,
    fun i hi => by rw [hready.length] at hi; exact Nat.not_lt_zero i hi,
    fun _ => ⟨hsize, fun _ hi => hi.elim⟩⟩

/-- A builder waits in a pool with the options `o`, and what is known of its workspace. -/
structure Waiting (w : Workspace) (id : BuilderId) (b : Builder) (o : PoolOptions) (clears : Nat) :
    Prop where
  present : w.builderAt? id = some b
  idle : w.Idle id
  ready : b.Ready o
  owned : w.Owned
  sound : w.Sound
  found : ∀ sid ∈ w.snapshotNames.values, w.Found sid
  bound : ∀ sid s id' v n, w.snapshotAt? sid = some s → s.origin = .bound id' v n →
    ∃ b', w.builderAt? id' = some b'
  cached : ∀ id' sid, w.cachedAt? id' = some sid →
    ∃ s, w.snapshotAt? sid = some s ∧ ∀ id'', s.boundTo? = some id'' → id'' = id'
  dated : ∀ sid s v n, w.snapshotAt? sid = some s → s.origin = .bound id v n →
    ∃ j, j ≤ clears ∧ b.version = v + UInt64.ofNat j ∧ (j = 0 → s.Blank)

/-- The idle builders of a session. -/
theorem waiting_run {history : List Step} {p : String} {pool : Pool BuilderId}
    (hp : (run {} history).poolNames.get? p = some pool) (hid : id ∈ pool.idle) :
    ∃ b, Waiting (run {} history) id b pool.options (clears id {} history) := by
  have howned := owned_run history
  have hsound := sound_run history
  have hidle : (run {} history).Idle id := ⟨p, pool, hp, hid⟩
  obtain ⟨b, hb, hready⟩ := howned.ready p pool id hp hid
  have hfaithful := faithful_run history
  refine ⟨b, hb, hidle, hready, howned, hsound, found_run history, fun sid s id' v n hs ho =>
    (hfaithful.shows sid s id' v n hs ho).1, hfaithful.cached, fun sid s v n hs ho => ?_⟩
  obtain ⟨j, hj, hv, hblank⟩ := dated_run history sid s id v n hs ho
  rw [see_of_builderAt? hb, (hsound.consistent id b hb).version] at hv
  exact ⟨j, hj, hv, hblank hidle⟩

namespace Waiting

variable {w : Workspace} {id : BuilderId} {b : Builder} {o : PoolOptions} {K : Nat}

/-- It is compared with a builder that is added to its workspace. -/
abbrev comparison (h : Waiting w id b o K) : Comparison :=
  taking w id b K (lt_of_builderAt? h.present)

theorem rename_eq (h : Waiting w id b o K) {id' : BuilderId} (hne : id' ≠ id)
    (hlt : id'.index < w.tenants.size) : h.comparison.rename id' = id' :=
  (if_neg hne).trans (if_pos hlt)

theorem gapOf_eq (h : Waiting w id b o K) {id' : BuilderId} (hne : id' ≠ id) :
    h.comparison.gapOf id' = .none := if_neg hne

/-- The builder that is taken, and the one that is new. -/
theorem kin_taken (h : Waiting w id b o K) (hpending : b.pending = none) {t : Tenant}
    (ht : w.tenants[id.index]? = some t) (hb : t.builder = b) :
    Kin h.comparison (Own w id) (fun _ => False) w.snapshotAt? id t ⟨.new o.builder, none⟩ := by
  subst hb
  refine ⟨?_, ?_⟩
  · have halike := alike_new h.ready (h.sound.whole id _ h.present) hpending (w.isShared id = true)
    have hgap : h.comparison.gapOf id = h.comparison.gap := if_pos rfl
    rw [hgap]
    exact halike.congr fun i => ⟨fun hi => hi rfl, fun hi => hi.elim⟩
  · cases hk : t.cached with
    | none => exact .inl ⟨rfl, rfl⟩
    | some sid =>
        obtain ⟨s, hs, hown⟩ := h.cached id sid (by rw [cachedAt?, ht]; exact hk)
        refine .inr (.inr ⟨rfl, rfl, sid, s, rfl, hs, ?_⟩)
        cases ho : s.origin with
        | units seg => exact .inl (by rw [Snapshot.boundTo?, ho])
        | text t => exact .inl (by rw [Snapshot.boundTo?, ho])
        | bound id' v n =>
            have hbound : s.boundTo? = some id' := by rw [Snapshot.boundTo?, ho]
            cases hown id' hbound
            obtain ⟨j, hj, hv, hblank⟩ := h.dated sid s v n hs ho
            refine .inr ⟨?_, v, n, ho, ?_⟩
            · rintro k ⟨-, s', hs', hne⟩
              rw [hs] at hs'
              cases hs'
              exact hne hbound
            · rcases Nat.eq_zero_or_pos j with hzero | hpos
              · exact .inr (hblank hzero)
              · exact .inl ⟨j, hpos, hj, hv⟩

/-- Any other builder stands for itself. -/
theorem kin_other (h : Waiting w id b o K) {id' : BuilderId} (hne : id' ≠ id) {t : Tenant}
    (ht : w.tenants[id'.index]? = some t) :
    Kin h.comparison (Own w id) (fun _ => False) w.snapshotAt? id' t t := by
  refine ⟨?_, ?_⟩
  · rw [h.gapOf_eq hne]
    exact (Builder.Alike.refl t.builder).congr fun i => ⟨fun _ => trivial, fun _ he => absurd he hne⟩
  · cases hk : t.cached with
    | none => exact .inl ⟨rfl, rfl⟩
    | some sid =>
        obtain ⟨s, hs, hown⟩ := h.cached id' sid (by rw [cachedAt?, ht]; exact hk)
        exact .inr (.inl ⟨sid, sid, rfl, rfl, rfl, s, hs, fun hbound => hne (hown id hbound).symm⟩)

/-- A snapshot of another builder is its own twin. -/
theorem twin_own (h : Waiting w id b o K) {sid : SnapshotId} {s : Snapshot}
    (hs : w.snapshotAt? sid = some s) (hne : s.boundTo? ≠ some id) :
    Snapshot.Twin h.comparison.rename h.comparison.lag s s := by
  have hcarry : s.carry h.comparison.rename h.comparison.lag = s := by
    unfold Snapshot.carry
    cases ho : s.origin with
    | units seg => simp only [← ho]
    | text t => simp only [← ho]
    | bound id' v n =>
        obtain ⟨b', hb'⟩ := h.bound sid s id' v n hs ho
        have hne' : id' ≠ id := fun he => hne (by rw [Snapshot.boundTo?, ho, he])
        have hlag : v - h.comparison.lag id' = v := by
          rw [Comparison.lag, h.gapOf_eq hne']
          exact UInt64.sub_zero v
        simp only [h.rename_eq hne' (lt_of_builderAt? hb'), hlag, ← ho]
  have htwin := @Snapshot.twin_carry h.comparison.rename h.comparison.lag s
  rwa [hcarry] at htwin

/-- **The beginning.**  A builder is taken out of a pool on one side, and a new one is added
on the other. -/
theorem mirrors (h : Waiting w id b o K) (hpending : b.pending = none) (p : String)
    (pool : Pool BuilderId) : Mirrors h.comparison (Own w id) (Leftover w id) (fun _ => False)
      (w.setPool p pool) (w.addBuilder (.new o.builder)).2 := by
  refine ⟨Nat.le_refl _, by simp [Workspace.addBuilder, setPool], fun id' => ?_, fun n => ?_, ?_, ?_,
    ?_, ?_, ?_, fun i hi => hi.isShared⟩
  · simp only [Workspace.addBuilder, setPool, Array.getElem?_push]
    by_cases hid' : id' = id
    · subst hid'
      obtain ⟨t, ht, hb⟩ := Option.map_eq_some_iff.mp h.present
      have hnew : h.comparison.rename id' = ⟨w.tenants.size⟩ := if_pos rfl
      rw [hnew, ht, if_pos rfl]
      exact .some (h.kin_taken hpending ht hb)
    · by_cases hlt : id'.index < w.tenants.size
      · rw [h.rename_eq hid' hlt, if_neg (Nat.ne_of_lt hlt)]
        cases ht : w.tenants[id'.index]? with
        | none => exact .none
        | some t => exact .some (h.kin_other hid' ht)
      · have hnext : h.comparison.rename id' = ⟨id'.index + 1⟩ := (if_neg hid').trans (if_neg hlt)
        rw [hnext, if_neg (by simp only; omega), Array.getElem?_eq_none (by omega),
          Array.getElem?_eq_none (by simp only; omega)]
        exact .none
  · -- A builder that has a name does not wait in a pool.
    show w.builderNames.get? n = (w.builderNames.get? n).map h.comparison.rename
    cases hn : w.builderNames.get? n with
    | none => rfl
    | some id' =>
        obtain ⟨b', hb'⟩ := h.owned.there n id' hn
        have hne : id' ≠ id := fun he => h.owned.apart n id' hn (he ▸ h.idle)
        rw [Option.map_some, h.rename_eq hne (lt_of_builderAt? hb')]
  · refine Table.Related.self fun sid hsid => ?_
    obtain ⟨s, hs⟩ := h.found sid hsid
    by_cases hbound : s.boundTo? = some id
    · exact .inr ⟨⟨List.contains_iff_mem.mpr hsid, by rw [hs]; exact hbound⟩, rfl⟩
    · exact .inl ⟨rfl, s, hs, hbound⟩
  · rintro i j ⟨rfl, s, hs, hne⟩
    exact ⟨s, s, hs, hs, h.twin_own hs hne⟩
  · rintro i j j' ⟨rfl, -⟩ ⟨rfl, -⟩
    rfl
  · rintro i i' j ⟨rfl, -⟩ ⟨rfl, -⟩
    rfl
  · rintro i ⟨-, hbound⟩
    obtain ⟨s, hs, hs'⟩ := Option.bind_eq_some_iff.mp hbound
    have hown (j k : SnapshotId) (hj : w.snapshotAt? j = some s) : ¬ Own w id j k := by
      rintro ⟨-, s', hs'', hne⟩
      rw [hj] at hs''
      cases hs''
      exact hne hs'
    refine ⟨fun j => ⟨hown i j hs, fun hj => ?_⟩, s, s, hs, hs, hs', hs'⟩
    obtain rfl := hj.1
    exact hown j j hs hj

end Waiting

/-! ## §4. What two workspaces show. -/

end Reusing

end Workspace

/-- The builders show the same, apart from their versions, their counts of overflows and
what their memories hold behind the content. -/
structure Builder.Resembles (b₁ b₂ : Builder) : Prop where
  units : b₁.units = b₂.units
  length : b₁.length = b₂.length
  capacity : b₁.capacity = b₂.capacity
  policy : b₁.policy = b₂.policy
  disposed : b₁.disposed = b₂.disposed

/-- The snapshots show the same before they are read. -/
structure Snapshot.Resembles (see₁ see₂ : BuilderId → Published) (s₁ s₂ : Snapshot) : Prop where
  length : s₁.length = s₂.length
  frozen : s₁.isFrozen = s₂.isFrozen
  current : s₁.isCurrent see₁ = s₂.isCurrent see₂

theorem Snapshot.Twin.resembles {rename : BuilderId → BuilderId} {lag : BuilderId → UInt64}
    {see₁ see₂ : BuilderId → Published} {s₁ s₂ : Snapshot} (h : Twin rename lag s₁ s₂)
    (hv : Views rename lag see₁ see₂) : Snapshot.Resembles see₁ see₂ s₁ s₂ := by
  have hfrozen (s : Snapshot) : s.isFrozen = s.tie?.isNone := by
    unfold isFrozen boundTo? tie?
    cases s.origin <;> rfl
  refine ⟨?_, ?_, (h.isCurrent hv).symm⟩
  · rcases h.same with rfl | ⟨h₁, h₂⟩
    · unfold length carry
      cases s₁.origin <;> rfl
    · have hzero (s : Snapshot) (hs : s.Blank) : s.length = 0 := by
        unfold length
        rcases hs.origin with ⟨id, v, ho⟩ | ho | ho <;> rw [ho] <;> rfl
      rw [hzero s₁ h₁, hzero s₂ h₂]
  · rw [hfrozen, hfrozen, h.tie, Option.isNone_map]

namespace Workspace

section Reusing

variable {c : Comparison} {σ : SnapshotId → SnapshotId → Prop} {F : SnapshotId → Prop}
  {W : Nat → Prop} {w w₁ w₂ : Workspace} {id id₁ id₂ : BuilderId} {b : Builder}
  {steps : List Step} {name : String}

/-- The steps are answered the same in `w₁` and `w₂`, and what they leave shows the same,
where the builder `id₁` of the one is `id₂` in the other.  Its version and its count of
overflows are as far apart as they were when it was `b` and the other one was new.
Snapshots of earlier lives of it are not compared, as long as names hold them. -/
structure Indistinct (id₁ id₂ : BuilderId) (b : Builder) (w₁ w₂ : Workspace) (steps : List Step) :
    Prop where
  answers : ∀ before s rest, steps = before ++ s :: rest →
    SameReply (w₁.isShared id₁ = true) (WrittenSince id₁ w₁ before) id₁ (w₁.run before)
      (w₂.run before) s
  builders : ∀ n, Option.Rel Builder.Resembles ((w₁.run steps).builder? n)
    ((w₂.run steps).builder? n)
  counters : ∀ b₁ b₂, (w₁.run steps).builderAt? id₁ = some b₁ →
    (w₂.run steps).builderAt? id₂ = some b₂ →
    b₁.version = b₂.version + b.version ∧ b₁.overflows = b₂.overflows + b.overflows
  snapshots : ∀ n, (∀ i, (w₁.run steps).snapshotNames.get? n = some i →
      ¬ (Leftover w₁ id₁ i ∧ Kept i w₁ steps)) →
    Option.Rel (Snapshot.Resembles (w₁.run steps).see (w₂.run steps).see)
      ((w₁.run steps).snapshot? n) ((w₂.run steps).snapshot? n)

/-- A workspace shows the same as itself. -/
theorem indistinct_self (w : Workspace) (id : BuilderId) {b : Builder} (hv : b.version = 0)
    (ho : b.overflows = 0) (steps : List Step) : Indistinct id id b w w steps := by
  refine ⟨fun _ _ _ _ => .inl rfl, fun n => Slot.refl (fun _ => ⟨rfl, rfl, rfl, rfl, rfl⟩) _, ?_,
    fun n _ => Slot.refl (fun _ => ⟨rfl, rfl, rfl⟩) _⟩
  intro b₁ b₂ h₁ h₂
  rw [h₁] at h₂
  cases h₂
  rw [hv, ho]
  exact ⟨(UInt64.add_zero _).symm, (UInt64.add_zero _).symm⟩

namespace Mirrors

/-- Builders that a name stands for on both sides. -/
theorem builders_resemble (h : Mirrors c σ F W w₁ w₂) (hw₁ : w₁.Sound) (hw₂ : w₂.Sound) (n : String) :
    Option.Rel Builder.Resembles (w₁.builder? n) (w₂.builder? n) := by
  rcases h.builder n with ⟨id, t₁, t₂, hb₁, hb₂, hat₁, hat₂, hk⟩ | ⟨-, -, hn₁, hn₂⟩
  · rw [builder?_of_builder hb₁, builder?_of_builder hb₂]
    have hat₁ := builderAt?_of_tenant hat₁
    have hat₂ := builderAt?_of_tenant hat₂
    have hunits := hk.builder.units_eq (hw₁.bounded _ _ hat₁) (hw₂.bounded _ _ hat₂)
      (hw₁.whole _ _ hat₁)
    exact .some ⟨hunits, hk.builder.length.symm, hk.builder.capacity.symm, hk.builder.policy.symm,
      hk.builder.disposed.symm⟩
  · rw [hn₁, hn₂]
    exact .none

/-- Snapshots that a name holds on both sides. -/
theorem snapshots_resemble (h : Mirrors c σ F W w₁ w₂) (hw₁ : w₁.Sound) (hw₂ : w₂.Sound) (n : String)
    (hn : ∀ i, w₁.snapshotNames.get? n = some i → ¬ F i) :
    Option.Rel (Snapshot.Resembles w₁.see w₂.see) (w₁.snapshot? n) (w₂.snapshot? n) := by
  unfold snapshot?
  rcases h.snapshot n with ⟨i, j, s₁, s₂, hs₁, hs₂, -, ht⟩ | ⟨i, s₁, s₂, hs₁, hs₂, hi⟩ | ⟨hs₁, hs₂⟩
  · rw [hs₁, hs₂]
    exact .some (ht.resembles (h.views hw₁ hw₂))
  · exact absurd hi (hn i (snapshot_eq_ok hs₁).1)
  · rw [hs₁, hs₂]
    exact .none

/-- **Workspaces that mirror each other cannot be told apart.** -/
theorem indistinct (h : Mirrors c σ (Leftover w₁ c.old) (fun _ => False) w₁ w₂) (hw₁ : w₁.Sound)
    (hw₂ : w₂.Sound) (hgap : c.gap = ⟨b.version, b.overflows, w₁.isShared c.old = true⟩)
    (hpast : ∀ v, c.past v → ∀ n, n ≤ clears c.old w₁ steps →
      (w₁.see c.old).version + UInt64.ofNat n ≠ v)
    (hl : Leaves (Leftover w₁ c.old) w₁ steps) :
    Indistinct c.old (c.rename c.old) b w₁ w₂ steps := by
  have hF (i : SnapshotId) (hi : Leftover w₁ c.old i) : w₁.isHeld i = true := hi.1
  obtain ⟨σ₁, hm⟩ := h.run hw₁ hw₂ hF hpast hl
  refine ⟨fun before s rest hsteps => ?_, hm.builders_resemble (hw₁.run steps) (hw₂.run steps), ?_,
    hm.snapshots_resemble (hw₁.run steps) (hw₂.run steps)⟩
  · subst hsteps
    rw [clears_append] at hpast
    obtain ⟨hlocal, huses⟩ := hl before s rest rfl
    obtain ⟨σ₂, hm₂⟩ := h.run hw₁ hw₂ hF (fun v hv n hn => hpast v hv n (by omega)) hl.left
    have hnow (v : UInt64) (hv : c.past v) : ((w₁.run before).see c.old).version ≠ v := by
      rw [version_run]
      exact hpast v hv _ (Nat.le_add_right _ _)
    have hheld (i : SnapshotId) (hi : Leftover w₁ c.old i ∧ Kept i w₁ before) :
        (w₁.run before).isHeld i = true := hi.2.last
    obtain ⟨-, hanswer⟩ := hm₂.step (hw₁.run before) (hw₂.run before) hheld hnow hlocal huses
    simpa only [hgap, false_or] using hanswer
  · intro b₁ b₂ h₁ h₂
    have ht := hm.tenants c.old
    obtain ⟨t₁, ht₁, rfl⟩ := Option.map_eq_some_iff.mp h₁
    obtain ⟨t₂, ht₂, rfl⟩ := Option.map_eq_some_iff.mp h₂
    rw [ht₁, ht₂] at ht
    cases ht with
    | some hk =>
        have hb := hk.builder
        rw [Comparison.gapOf, if_pos rfl, hgap] at hb
        exact ⟨hb.version, hb.overflows⟩

end Mirrors

/-! ## §5. A builder out of a pool. -/

variable {history : List Step} {p : String} {pool : Pool BuilderId}

theorem get?_nameBuilder (w : Workspace) (name : String) (id : BuilderId) :
    (w.nameBuilder name id).builderNames.get? name = some id := by
  obtain ⟨tenants, he⟩ := nameBuilder_eq w name id
  rw [he]
  exact (Table.get?_set w.builderNames name name id).trans (if_pos rfl)

theorem tenants_disposeBuilder (h : id₂ ≠ id₁) :
    (w.disposeBuilder id₂).tenants[id₁.index]? = w.tenants[id₁.index]? := by
  unfold disposeBuilder
  split
  · rfl
  · split
    · rfl
    · rw [Array.getElem?_modify, if_neg (BuilderId.index_ne h)]

/-- A builder that has no name stays what it is when a name is given. -/
theorem tenants_nameBuilder (h : ∀ n, w.builderNames.get? n ≠ some id₁) (id₂ : BuilderId) :
    (w.nameBuilder name id₂).tenants[id₁.index]? = w.tenants[id₁.index]? := by
  unfold nameBuilder
  split
  · next old hold =>
      refine tenants_disposeBuilder ?_
      rintro rfl
      exact h name hold
  · rfl

/-- Disposing a builder and changing another one may be done in either order. -/
theorem disposeBuilder_setBuilder (h : id₂ ≠ id₁) (b : Builder) :
    (w.setBuilder id₁ b).disposeBuilder id₂ = (w.disposeBuilder id₂).setBuilder id₁ b := by
  have hne := BuilderId.index_ne h
  have hshared : (w.setBuilder id₁ b).isShared id₂ = w.isShared id₂ := rfl
  have hat : (w.setBuilder id₁ b).builderAt? id₂ = w.builderAt? id₂ := by
    rw [builderAt?_setBuilder, if_neg h]
  unfold disposeBuilder
  rw [hat, hshared]
  split
  · rfl
  · split
    · rfl
    · unfold setBuilder
      congr 1
      apply Array.toList_inj.mp
      simp only [Array.toList_modify, List.modify_modify_ne _ _ _ hne.symm]

/-- Giving an unowned builder a name and changing it may be done in either order. -/
theorem nameBuilder_setBuilder (h : w.Unowned id) (name : String) (b : Builder) :
    (w.setBuilder id b).nameBuilder name id = (w.nameBuilder name id).setBuilder id b := by
  have hnames : (w.setBuilder id b).builderNames = w.builderNames := rfl
  unfold nameBuilder
  rw [hnames]
  split
  · next old hold =>
      refine disposeBuilder_setBuilder (w := { w with builderNames := w.builderNames.set name id }) ?_ b
      rintro rfl
      exact h.unnamed name hold
  · rfl

/-- A step that takes a builder out of a pool always answers. -/
theorem step_take (hp : w.pool p = .ok pool) (name : String) : w.step (.take p name) =
    .ok (.done, (w.takeFrom p pool).2.nameBuilder name (w.takeFrom p pool).1) := by
  show w.pool p >>= _ = _
  rw [hp]
  rfl

/-- A builder that is given a name is found under it. -/
theorem builder_nameBuilder (h : w.Unowned id) (hb : w.builderAt? id = some b) (name : String) :
    ∃ t, (w.nameBuilder name id).builder name = .ok (id, t) ∧ t.builder = b := by
  obtain ⟨t, ht, rfl⟩ := Option.map_eq_some_iff.mp hb
  have ht' : (w.nameBuilder name id).tenants[id.index]? = some t := by
    rw [tenants_nameBuilder h.unnamed, ht]
  refine ⟨t, ?_, rfl⟩
  unfold Workspace.builder builderId
  rw [get?_nameBuilder]
  simp only [bind, Except.bind, ht']

theorem leftover_congr (hn : w₂.snapshotNames = w₁.snapshotNames)
    (hs : w₂.snapshots = w₁.snapshots) (id : BuilderId) : Leftover w₂ id = Leftover w₁ id := by
  funext i
  rw [Leftover, Leftover, Workspace.isHeld, Workspace.isHeld, snapshotAt?, snapshotAt?, hn, hs]

/-- A builder that is taken out of a pool, and one that is made in its place. -/
theorem Waiting.indistinct {rest : List BuilderId} {K : Nat} {later : List Step}
    (h : Waiting w id b pool.options K) (hp : w.pool p = .ok pool) (hidle : pool.idle = id :: rest)
    (hpending : b.pending = none)
    (hl : Leaves (Leftover (w.after (.take p name)) id) (w.after (.take p name)) later)
    (hclears : K + clears id w (.take p name :: later) < 2 ^ 64) :
    Indistinct id ⟨w.tenants.size⟩ b (w.after (.take p name))
      (w.after (.newBuilder name pool.options.builder)) later := by
  -- Both workspaces give the builder the same name.
  have hnamed := (h.mirrors hpending p { pool with idle := rest }).nameBuilder name id
  have htake : w.takeFrom p pool = (id, w.setPool p { pool with idle := rest }) := by
    rw [takeFrom, Pool.take, hidle]
  have hw₁ : w.after (.take p name) =
      (w.setPool p { pool with idle := rest }).nameBuilder name id := by
    rw [after_of_step (step_take hp name), htake]
  have hnew : h.comparison.rename id = ⟨w.tenants.size⟩ := if_pos rfl
  have hw₂ : w.after (.newBuilder name pool.options.builder) =
      (w.addBuilder (.new pool.options.builder)).2.nameBuilder name (h.comparison.rename id) := by
    rw [hnew]
    rfl
  rw [← hw₁, ← hw₂] at hnamed
  have hnames : (w.after (.take p name)).snapshotNames = w.snapshotNames := by
    rw [hw₁]
    exact snapshotNames_nameBuilder _ name id
  have hsnapshots : (w.after (.take p name)).snapshots = w.snapshots := by
    rw [hw₁]
    exact (quiet_nameBuilder (w.setPool p { pool with idle := rest }) name id).snapshots
  rw [← leftover_congr hnames hsnapshots] at hnamed
  have hshared : (w.after (.take p name)).isShared id = w.isShared id := by
    rw [isShared, isShared, hnames, hsnapshots]
  have hgap : h.comparison.gap =
      ⟨b.version, b.overflows, (w.after (.take p name)).isShared id = true⟩ := by
    rw [hshared]
    rfl
  -- The version does not come round.
  have hversion := version_after id w (.take p name)
  rw [see_of_builderAt? h.present, (h.sound.consistent id b h.present).version] at hversion
  have hpast (v : UInt64) (hv : h.comparison.past v) (n : Nat)
      (hn : n ≤ clears id (w.after (.take p name)) later) :
      ((w.after (.take p name)).see id).version + UInt64.ofNat n ≠ v := by
    obtain ⟨j, hpos, hj, hv⟩ := hv
    intro he
    rw [hversion, hv, UInt64.add_assoc, UInt64.add_assoc, ← UInt64.ofNat_add,
      ← UInt64.ofNat_add] at he
    have hzero : UInt64.ofNat (j + (moves id w (.take p name) + n)) = 0 := by grind
    have hsplit : clears id w (.take p name :: later) =
        moves id w (.take p name) + clears id (w.after (.take p name)) later := rfl
    have hsmall : j + (moves id w (.take p name) + n) < 2 ^ 64 := by omega
    have hnat := congrArg UInt64.toNat hzero
    rw [UInt64.toNat_ofNat_of_lt' hsmall] at hnat
    have hz : (0 : UInt64).toNat = 0 := rfl
    omega
  rw [← hnew]
  exact hnamed.indistinct (h.sound.after _) (h.sound.after _) hgap hpast hl

/-- An edit of a named builder that comes to nothing but an append. -/
theorem reply_pieces {t : Tenant} (h : w.builder name = .ok (id, t)) :
    w.reply (.edit name (.pieces [] false)) = .ok (match t.builder.pending with
      | some e => .overflow e
      | none => .flag false) := by
  have htruncate : t.builder.truncate t.builder.length = t.builder := by
    rw [Builder.truncate, if_neg (Nat.lt_irrefl _)]
  rw [reply, step_edit h]
  simp only [Workspace.edit, Builder.appendPieces, Builder.sinkAll, htruncate]
  cases t.builder.pending <;> rfl

/-- A step that rents a builder always answers. -/
theorem step_rent (howned : w.Owned) (hp : w.pool p = .ok pool) : ∃ pool₁ b,
    (w.takeFrom p pool).2.pool p = .ok pool₁ ∧
      (w.takeFrom p pool).2.builderAt? (w.takeFrom p pool).1 = some b ∧
      ∀ text keep, w.step (.rent p text keep) =
        .ok (.rented (.ofAppend (b.appendText text).1) (b.appendText text).2 pool₁.size,
          ((w.takeFrom p pool).2.setBuilder (w.takeFrom p pool).1
            (b.appendText text).2).afterRent p pool₁ (w.takeFrom p pool).1 keep) := by
  obtain ⟨-, -, b, hat, -⟩ := howned.takeFrom (pool_eq_ok hp)
  -- The pool is still there after it has lost the builder.
  obtain ⟨pool₁, hpool₁⟩ : ∃ pool₁, (w.takeFrom p pool).2.pool p = .ok pool₁ := by
    unfold takeFrom
    split
    · exact ⟨_, by rw [Workspace.pool, get?_setPool, if_pos rfl]⟩
    · exact ⟨pool, hp⟩
  refine ⟨pool₁, b, hpool₁, hat, fun text keep => ?_⟩
  simp only [Workspace.step, bind, Except.bind, hp, hpool₁, hat]
  cases keep <;> rfl

/-- Renting a builder is taking it and appending to it. -/
theorem rent_eq_take (howned : w.Owned) (hp : w.pool p = .ok pool) {t : Tenant}
    (hb : (w.after (.take p name)).builder name = .ok ((w.takeFrom p pool).1, t)) (text : String) :
    w.after (.rent p text (some name)) = (w.after (.take p name)).after (.edit name (.text text)) ∧
      ∀ keep, ∃ r idle, w.reply (.rent p text keep) =
          .ok (.rented r (t.builder.appendText text).2 idle) ∧
        (w.after (.take p name)).reply (.edit name (.text text)) = .ok r := by
  obtain ⟨-, hunowned, -⟩ := howned.takeFrom (pool_eq_ok hp)
  obtain ⟨pool₁, b, -, hat, hrent⟩ := step_rent howned hp
  have htake := after_of_step (step_take hp name)
  obtain ⟨t', ht', rfl⟩ := builder_nameBuilder hunowned hat name
  rw [← htake, hb] at ht'
  cases ht'
  have hedit := step_edit hb (.text text)
  refine ⟨?_, fun keep => ⟨.ofAppend (t.builder.appendText text).1, pool₁.size, ?_, ?_⟩⟩
  · rw [after_of_step (hrent text (some name)), afterRent, nameBuilder_setBuilder hunowned, after, hedit,
      htake]
    rfl
  · rw [reply, hrent]
    rfl
  · rw [reply, hedit]
    rfl

/-- **A builder out of a pool answers like a new one.**  Taking it always succeeds.  Unless
an overflow is pending in it, no step of builders and snapshots tells it from a builder
that is made with the options of the pool, but for its version, its count of overflows and
the units at indexes that were not written since it was taken: as long as no step uses a
snapshot of an earlier life that is still held, and the version does not come round.  (While
such a snapshot is held, the memory may outlive the builder.)  An overflow that is pending is
answered to the next value that fails.  Renting is taking and appending. -/
theorem reused_as_new (history : List Step) (p name : String) {pool : Pool BuilderId}
    (hp : (run {} history).pool p = .ok pool) :
    ∃ w₁ w₂ id₁ id₂ t₁ t₂,
      (run {} history).step (.take p name) = .ok (.done, w₁) ∧
      (run {} history).step (.newBuilder name pool.options.builder) = .ok (.done, w₂) ∧
      w₁.builder name = .ok (id₁, t₁) ∧ w₂.builder name = .ok (id₂, t₂) ∧
      (t₁.builder.pending = none → ∀ later, Leaves (Leftover w₁ id₁) w₁ later →
        clears id₁ {} (history ++ .take p name :: later) < 2 ^ 64 →
        Indistinct id₁ id₂ t₁.builder w₁ w₂ later) ∧
      (∀ e, t₁.builder.pending = some e →
        w₁.reply (.edit name (.pieces [] false)) = .ok (.overflow e) ∧
        w₂.reply (.edit name (.pieces [] false)) = .ok (.flag false)) ∧
      ∀ text, (run {} history).after (.rent p text (some name)) = w₁.after (.edit name (.text text)) ∧
        ∀ keep, ∃ r idle, (run {} history).reply (.rent p text keep) =
            .ok (.rented r (t₁.builder.appendText text).2 idle) ∧
          w₁.reply (.edit name (.text text)) = .ok r := by
  have howned := owned_run history
  have hpool := pool_eq_ok hp
  obtain ⟨-, hunowned, b, hat, -⟩ := howned.takeFrom hpool
  obtain ⟨-, hfresh, hat'⟩ := howned.addBuilder (.new pool.options.builder)
  have htake := step_take hp name
  obtain ⟨t₁, hb₁, rfl⟩ := builder_nameBuilder hunowned hat name
  obtain ⟨t₂, hb₂, hnew⟩ := builder_nameBuilder hfresh hat' name
  have hmake : (run {} history).step (.newBuilder name pool.options.builder) =
      .ok (.done, ((run {} history).addBuilder (.new pool.options.builder)).2.nameBuilder name
        ((run {} history).addBuilder (.new pool.options.builder)).1) := rfl
  have hfound : ((run {} history).after (.take p name)).builder name =
      .ok (((run {} history).takeFrom p pool).1, t₁) := by
    rw [after_of_step htake]
    exact hb₁
  have hrent := rent_eq_take howned hp hfound
  rw [after_of_step htake] at hrent
  refine ⟨_, _, _, _, t₁, t₂, htake, hmake, hb₁, hb₂, fun hpending later hl hclears => ?_,
    fun e he => ⟨?_, ?_⟩, hrent⟩
  · cases hidle : pool.idle with
    | nil =>
        -- The pool makes the builder, as it would be made without the pool.
        have hmade : (run {} history).takeFrom p pool =
            (run {} history).addBuilder (.new pool.options.builder) := by
          rw [takeFrom, Pool.take, hidle]
        rw [hmade] at hat hb₁ ⊢
        rw [hat'] at hat
        exact indistinct_self _ _ (by rw [← Option.some.inj hat]; rfl)
          (by rw [← Option.some.inj hat]; rfl) later
    | cons id rest =>
        have htaken : (run {} history).takeFrom p pool =
            (id, (run {} history).setPool p { pool with idle := rest }) := by
          rw [takeFrom, Pool.take, hidle]
        rw [htaken] at hat hl hclears htake ⊢
        rw [← after_of_step htake] at hl ⊢
        obtain ⟨b, hwaiting⟩ := waiting_run hpool (by rw [hidle]; exact List.mem_cons_self)
        obtain rfl := Option.some.inj (hwaiting.present.symm.trans hat)
        rw [clears_append] at hclears
        exact hwaiting.indistinct hp hidle hpending hl hclears
  · rw [reply_pieces hb₁, he]
  · rw [reply_pieces hb₂, hnew]
    rfl

/-- A pool, and a builder that comes back to it with the snapshot that it made last. -/
def returned : List Step :=
  [.newPool "p" ⟨⟨4, .error⟩, 1⟩, .take "p" "a", .edit "a" (.text "abc"), .snap "a" "s",
   .look "s" .text, .dropSnapshot "s", .giveBack "p" "a"]

/-- What is done with the builder that comes out of the pool. -/
def rewritten : List Step :=
  [.edit "b" (.text "xyz"), .snap "b" "t", .look "t" .text, .edit "b" (.pieces ["uv"] true)]

theorem reused_as_new_returned :
    ∃ w₁ w₂ id₁ id₂ t₁, (run {} returned).step (.take "p" "b") = .ok (.done, w₁) ∧
      (run {} returned).step (.newBuilder "b" ⟨4, .error⟩) = .ok (.done, w₂) ∧
      w₁.builder "b" = .ok (id₁, t₁) ∧ Indistinct id₁ id₂ t₁.builder w₁ w₂ rewritten := by
  have hp : (run {} returned).pool "p" = .ok ⟨⟨⟨4, .error⟩, 1⟩, [⟨0⟩]⟩ := rfl
  obtain ⟨w₁, w₂, id₁, id₂, t₁, t₂, h₁, h₂, hb₁, -, hclean, -⟩ := reused_as_new returned "p" "b" hp
  refine ⟨w₁, w₂, id₁, id₂, t₁, h₁, h₂, hb₁, ?_⟩
  have hw₁ := after_of_step h₁
  subst hw₁
  have hfound : (((run {} returned).after (.take "p" "b")).builder "b").toOption.map
      (fun v => (v.1, v.2.builder.pending)) = some (⟨0⟩, none) := by decide
  rw [hb₁] at hfound
  simp only [Except.toOption, Option.map_some, Option.some.injEq, Prod.mk.injEq] at hfound
  obtain ⟨rfl, hpending⟩ := hfound
  refine hclean hpending rewritten (leaves_of_none (fun i hi => ?_) ?_) (by decide)
  · -- The snapshot of the first life is held by no name any more.
    have hnames : ((run {} returned).after (.take "p" "b")).snapshotNames.values = [] := by decide
    have hheld := hi.1
    rw [isHeld, hnames] at hheld
    cases hheld
  · simp [rewritten, Step.IsLocal]

/-- A builder that comes back to its pool after a piece of a text did not fit into it. -/
def overflowed : List Step :=
  [.newPool "p" ⟨⟨4, .error⟩, 1⟩, .take "p" "a", .edit "a" (.sink "abcdef"), .giveBack "p" "a"]

/-- A builder that comes back to its pool while a snapshot of it is held. -/
def observed : List Step :=
  [.newPool "p" ⟨⟨4, .error⟩, 1⟩, .take "p" "a", .edit "a" (.text "abc"), .snap "a" "s",
   .giveBack "p" "a"]

/-- Out of its pool, the one reports an overflow that it did not have, and the other one
has memory still when it is disposed. -/
theorem reused_unlike_new :
    (run {} (overflowed ++ [.take "p" "b"])).reply (.edit "b" (.pieces ["x"] false)) =
        .ok (.overflow ⟨6, 4⟩) ∧
      (run {} (overflowed ++ [.newBuilder "b" ⟨4, .error⟩])).reply
        (.edit "b" (.pieces ["x"] false)) = .ok (.flag false) ∧
      (run {} (observed ++ [.take "p" "b", .edit "b" (.text "x"), .edit "b" .dispose])).reply
        (.edit "b" (.get 0)) = .ok (.unit 0x78) ∧
      (run {} (observed ++ [.newBuilder "b" ⟨4, .error⟩, .edit "b" (.text "x"),
        .edit "b" .dispose])).reply (.edit "b" (.get 0)) = .error .outOfRange :=
  ⟨rfl, rfl, rfl, rfl⟩

end Reusing

end Workspace

end ValueText
