/-
  ValueText.Proofs.Buffer.Mirroring — two workspaces that differ in one builder.

  The first workspace took a builder out of a pool; the second one made a new builder
  in its place and left the other one where it was.  Builders and snapshots have other
  numbers in the second one, so they are compared up to a renaming: the builder of the
  pool is renamed to the new one, and snapshots are paired as they are taken.

  What is left of earlier lives of the builder is kept track of: snapshots that names
  still hold, and the one that the builder keeps for the next time.

  Main results:

    • `Mirrors`               what is related; each operation of a workspace keeps it;
    • `Mirrors.views`         builders that stand for each other publish the same;
    • `Mirrors.takeSnapshot`  a snapshot that is taken is new on both sides, or used again
                              on both, or left over on one and new on the other.
-/
import Mathlib.Data.List.Forall2
import ValueText.Proofs.Buffer.Alike
import ValueText.Proofs.Buffer.Refinement

namespace ValueText

/-! ## §1. Tables with related values. -/

section Tables

variable {κ α β : Type} {R S : α → β → Prop} {t₁ : Table κ α} {t₂ : Table κ β}

/-- The tables have the same keys in the same order, and related values. -/
def Table.Related (R : α → β → Prop) (t₁ : Table κ α) (t₂ : Table κ β) : Prop :=
  List.Forall₂ (fun e₁ e₂ => e₁.1 = e₂.1 ∧ R e₁.2 e₂.2) t₁.entries t₂.entries

namespace Table.Related

theorem values (h : Related R t₁ t₂) : List.Forall₂ R t₁.values t₂.values :=
  List.forall₂_map_left_iff.mpr (List.forall₂_map_right_iff.mpr (h.imp fun _ _ he => he.2))

theorem mono (h : Related R t₁ t₂) (hS : ∀ v₁ v₂, v₁ ∈ t₁.values → R v₁ v₂ → S v₁ v₂) :
    Related S t₁ t₂ := by
  have hgo (l₁ : List (κ × α)) (l₂ : List (κ × β))
      (h : List.Forall₂ (fun e₁ e₂ => e₁.1 = e₂.1 ∧ R e₁.2 e₂.2) l₁ l₂)
      (hsub : ∀ e ∈ l₁, e.2 ∈ t₁.values) :
      List.Forall₂ (fun e₁ e₂ => e₁.1 = e₂.1 ∧ S e₁.2 e₂.2) l₁ l₂ := by
    induction h with
    | nil => exact .nil
    | cons he _ ih =>
        refine .cons ⟨he.1, hS _ _ (hsub _ List.mem_cons_self) he.2⟩ ?_
        exact ih fun e he => hsub e (List.mem_cons_of_mem _ he)
  exact hgo _ _ h fun e he => List.mem_map_of_mem he

theorem self {R : α → α → Prop} {t : Table κ α} (hR : ∀ v ∈ t.values, R v v) : Related R t t :=
  List.forall₂_same.mpr fun e he => ⟨rfl, hR e.2 (List.mem_map_of_mem he)⟩

variable [DecidableEq κ]

theorem get? (h : Related R t₁ t₂) (k : κ) : Option.Rel R (t₁.get? k) (t₂.get? k) := by
  have hfind (l₁ : List (κ × α)) (l₂ : List (κ × β))
      (h : List.Forall₂ (fun e₁ e₂ => e₁.1 = e₂.1 ∧ R e₁.2 e₂.2) l₁ l₂) :
      Option.Rel R (Table.find? k l₁) (Table.find? k l₂) := by
    induction h with
    | nil => exact .none
    | cons he _ ih =>
        obtain ⟨hk, hr⟩ := he
        unfold Table.find?
        rw [hk]
        split
        · exact .some hr
        · exact ih
  exact hfind _ _ h

theorem set (h : Related R t₁ t₂) (k : κ) {v₁ : α} {v₂ : β} (hv : R v₁ v₂) :
    Related R (t₁.set k v₁) (t₂.set k v₂) := by
  have hgo (l₁ : List (κ × α)) (l₂ : List (κ × β))
      (h : List.Forall₂ (fun e₁ e₂ => e₁.1 = e₂.1 ∧ R e₁.2 e₂.2) l₁ l₂) :
      List.Forall₂ (fun e₁ e₂ => e₁.1 = e₂.1 ∧ R e₁.2 e₂.2) (Table.set.go k v₁ l₁)
        (Table.set.go k v₂ l₂) := by
    induction h with
    | nil => exact .cons ⟨rfl, hv⟩ .nil
    | cons he hrest ih =>
        obtain ⟨hk, hr⟩ := he
        unfold Table.set.go
        rw [hk]
        split
        · exact .cons ⟨rfl, hv⟩ hrest
        · exact .cons ⟨rfl, hr⟩ ih
  exact hgo _ _ h

theorem erase (h : Related R t₁ t₂) (k : κ) : Related R (t₁.erase k) (t₂.erase k) := by
  have hfilter (l₁ : List (κ × α)) (l₂ : List (κ × β))
      (h : List.Forall₂ (fun e₁ e₂ => e₁.1 = e₂.1 ∧ R e₁.2 e₂.2) l₁ l₂) :
      List.Forall₂ (fun e₁ e₂ => e₁.1 = e₂.1 ∧ R e₁.2 e₂.2) (l₁.filter fun e => e.1 ≠ k)
        (l₂.filter fun e => e.1 ≠ k) := by
    induction h with
    | nil => exact .nil
    | cons he _ ih =>
        rw [List.filter_cons, List.filter_cons, he.1]
        split
        · exact .cons he ih
        · exact ih
  exact hfilter _ _ h

end Table.Related

theorem any_eq_of_forall₂ {l₁ : List α} {l₂ : List β} {p : α → Bool} {q : β → Bool}
    (h : List.Forall₂ R l₁ l₂) (hpq : ∀ a b, R a b → p a = q b) : l₁.any p = l₂.any q := by
  induction h with
  | nil => rfl
  | cons hr _ ih => rw [List.any_cons, List.any_cons, hpq _ _ hr, ih]

end Tables

/-! ## §2. Workspaces that mirror each other. -/

namespace Workspace

/-- What is compared: the builder `old` of the first workspace is the number `size` of the
second one, which has the builders below `size` besides.  The two builders are `gap`
apart, and the versions that `old` had before are `past`. -/
structure Comparison where
  old : BuilderId
  size : Nat
  gap : Gap
  past : UInt64 → Prop
  known : old.index < size

namespace Comparison

variable (c : Comparison)

/-- The builder of the second workspace that stands for one of the first. -/
def rename (id : BuilderId) : BuilderId :=
  if id = c.old then ⟨c.size⟩ else if id.index < c.size then id else ⟨id.index + 1⟩

/-- How far a builder is apart from the one that stands for it. -/
def gapOf (id : BuilderId) : Gap := if id = c.old then c.gap else .none

/-- How far their versions are apart. -/
def lag (id : BuilderId) : UInt64 := (c.gapOf id).version

/-- The indexes at which a builder is known to agree with the one that stands for it. -/
def written (W : Nat → Prop) (id : BuilderId) (i : Nat) : Prop := id = c.old → W i

theorem rename_inj {id id' : BuilderId} (h : c.rename id = c.rename id') : id = id' := by
  have hknown := c.known
  obtain ⟨i⟩ := id
  obtain ⟨j⟩ := id'
  unfold rename at h
  by_cases hi : (⟨i⟩ : BuilderId) = c.old
  · by_cases hj : (⟨j⟩ : BuilderId) = c.old
    · rw [hi, hj]
    · rw [if_pos hi, if_neg hj] at h
      split at h
      · next hlt => cases h; simp at hlt
      · next hlt =>
          simp only [BuilderId.mk.injEq] at h
          simp only at hlt
          omega
  · by_cases hj : (⟨j⟩ : BuilderId) = c.old
    · rw [if_neg hi, if_pos hj] at h
      split at h
      · next hlt => cases h; simp at hlt
      · next hlt =>
          simp only [BuilderId.mk.injEq] at h
          simp only at hlt
          omega
    · rw [if_neg hi, if_neg hj] at h
      split at h <;> split at h <;> simp_all <;> omega

theorem rename_ne_old (id : BuilderId) : c.rename id ≠ c.old := by
  have hknown := c.known
  unfold rename
  intro h
  split at h
  · rw [← h] at hknown
    exact absurd hknown (Nat.lt_irrefl _)
  · split at h
    · contradiction
    · next hlt =>
        rw [← h] at hknown
        simp only at hknown
        omega

/-- A builder that is added later has the next number in both workspaces. -/
theorem rename_fresh {n : Nat} (h : c.size ≤ n) : c.rename ⟨n⟩ = ⟨n + 1⟩ := by
  have hknown := c.known
  have hne : (⟨n⟩ : BuilderId) ≠ c.old := by
    intro he
    rw [← he] at hknown
    simp only at hknown
    omega
  rw [rename, if_neg hne, if_neg (by simp only; omega)]

end Comparison

section Mirroring

variable {c : Comparison} {σ σ' : SnapshotId → SnapshotId → Prop} {F : SnapshotId → Prop}
  {W V : Nat → Prop} {w₁ w₂ : Workspace} {id : BuilderId} {t₁ t₂ : Tenant}
  {at₁ at₁' : SnapshotId → Option Snapshot}

/-- A snapshot of an earlier life of the builder, which stands for none of the second
workspace: taking a snapshot of the builder does not bring it back. -/
def Comparison.Spent (c : Comparison) (σ : SnapshotId → SnapshotId → Prop) (sid : SnapshotId)
    (s : Snapshot) : Prop :=
  s.boundTo? = none ∨
    (∀ j, ¬ σ sid j) ∧ ∃ v n, s.origin = .bound c.old v n ∧ (c.past v ∨ s.Blank)

/-- Two builders that stand for each other, and the snapshots that they made last. -/
structure Kin (c : Comparison) (σ : SnapshotId → SnapshotId → Prop) (W : Nat → Prop)
    (at₁ : SnapshotId → Option Snapshot) (id : BuilderId) (t₁ t₂ : Tenant) : Prop where
  builder : Builder.Alike (c.gapOf id) (c.written W id) t₁.builder t₂.builder
  cached : t₁.cached = none ∧ t₂.cached = none ∨
    (∃ i j, t₁.cached = some i ∧ t₂.cached = some j ∧ σ i j) ∨
    (id = c.old ∧ t₂.cached = none ∧
      ∃ i s, t₁.cached = some i ∧ at₁ i = some s ∧ c.Spent σ i s)

/-- The second workspace mirrors the first one: builders stand for each other by their
new numbers, snapshots by `σ`, and the names `F` hold snapshots of earlier lives of the
builder that is compared. -/
structure Mirrors (c : Comparison) (σ : SnapshotId → SnapshotId → Prop) (F : SnapshotId → Prop)
    (W : Nat → Prop) (w₁ w₂ : Workspace) : Prop where
  room : c.size ≤ w₁.tenants.size
  size : w₂.tenants.size = w₁.tenants.size + 1
  tenants : ∀ id, Option.Rel (Kin c σ W w₁.snapshotAt? id) w₁.tenants[id.index]?
    w₂.tenants[(c.rename id).index]?
  names : ∀ n, w₂.builderNames.get? n = (w₁.builderNames.get? n).map c.rename
  holders : Table.Related (fun i j => σ i j ∨ F i ∧ i = j) w₁.snapshotNames w₂.snapshotNames
  paired : ∀ i j, σ i j → ∃ s₁ s₂, w₁.snapshotAt? i = some s₁ ∧ w₂.snapshotAt? j = some s₂ ∧
    Snapshot.Twin c.rename c.lag s₁ s₂
  left : ∀ i j j', σ i j → σ i j' → j = j'
  right : ∀ i i' j, σ i j → σ i' j → i = i'
  foreign : ∀ i, F i → (∀ j, ¬ σ i j ∧ ¬ σ j i) ∧
    ∃ s₁ s₂, w₁.snapshotAt? i = some s₁ ∧ w₂.snapshotAt? i = some s₂ ∧
      s₁.boundTo? = some c.old ∧ s₂.boundTo? = some c.old
  drift : ∀ i, F i → c.gap.adrift

theorem Kin.congr (h : Kin c σ W at₁ id t₁ t₂) (hV : ∀ i, V i ↔ W i) :
    Kin c σ V at₁ id t₁ t₂ :=
  ⟨h.builder.congr fun i => imp_congr_right fun _ => hV i, h.cached⟩

/-- More snapshots are paired, and those that were left over still are. -/
theorem Kin.mono (h : Kin c σ W at₁ id t₁ t₂) (hσ : ∀ i j, σ i j → σ' i j)
    (hspent : ∀ i s, at₁ i = some s → c.Spent σ i s → ∃ s', at₁' i = some s' ∧ c.Spent σ' i s') :
    Kin c σ' W at₁' id t₁ t₂ := by
  refine ⟨h.builder, ?_⟩
  rcases h.cached with hn | ⟨i, j, h₁, h₂, hp⟩ | ⟨hid, hn, i, s, hi, hs, hsp⟩
  · exact .inl hn
  · exact .inr (.inl ⟨i, j, h₁, h₂, hσ i j hp⟩)
  · obtain ⟨s', hs', hsp'⟩ := hspent i s hs hsp
    exact .inr (.inr ⟨hid, hn, i, s', hi, hs', hsp'⟩)

/-- The snapshots of two builders that stand for each other are twins. -/
theorem Kin.twin_bind (hk : Kin c σ W at₁ id t₁ t₂) :
    Snapshot.Twin c.rename c.lag (.bind id t₁.builder) (.bind (c.rename id) t₂.builder) := by
  have hcarry : Snapshot.bind (c.rename id) t₂.builder =
      (Snapshot.bind id t₁.builder).carry c.rename c.lag := by
    have hv : t₁.builder.version - c.lag id = t₂.builder.version := by
      rw [hk.builder.version, Comparison.lag]
      grind
    simp only [Snapshot.bind, Snapshot.carry, hv, hk.builder.length]
  rw [hcarry]
  exact Snapshot.twin_carry _

/-- A snapshot of an earlier life is bound anew, or blank and bound to empty content. -/
theorem Kin.twin_revived {see : BuilderId → Published} {s : Snapshot} {v : UInt64} {n : Nat}
    (hk : Kin c σ W at₁ c.old t₁ t₂) (hversion : (see c.old).version = t₁.builder.version)
    (hlength : (see c.old).length = t₁.builder.length) (ho : s.origin = .bound c.old v n)
    (hold : c.past v ∨ s.Blank) (hpast : ∀ v, c.past v → (see c.old).version ≠ v) :
    Snapshot.Twin c.rename c.lag
      (if s.isCurrent see then s
        else ⟨.bound c.old (see c.old).version (see c.old).length, none, none⟩)
      (.bind (c.rename c.old) t₂.builder) := by
  split
  · next hc =>
      simp only [Snapshot.isCurrent, ho, Bool.and_eq_true, decide_eq_true_eq] at hc
      have hblank : s.Blank := hold.resolve_left fun hp => hpast v hp hc.1
      have hn : n = 0 := by
        rcases hblank.origin with ⟨id, v, he⟩ | he | he <;> rw [ho] at he <;> cases he
        rfl
      have hempty : t₂.builder.length = 0 := by rw [hk.builder.length, ← hlength, hc.2, hn]
      refine ⟨?_, .inr ⟨hblank, ?_⟩⟩
      · have hv : v - c.lag c.old = t₂.builder.version := by
          rw [← hc.1, hversion, hk.builder.version, Comparison.lag]
          grind
        simp only [Snapshot.tie?, Snapshot.bind, ho, Option.map_some, hv]
      · refine ⟨.inl ⟨_, _, by rw [Snapshot.bind, hempty]⟩, fun seg hseg => ?_, fun t ht => ?_⟩
        · cases hseg
        · cases ht
  · rw [hversion, hlength]
    exact hk.twin_bind

namespace Mirrors

theorem congr (h : Mirrors c σ F W w₁ w₂) (hV : ∀ i, V i ↔ W i) : Mirrors c σ F V w₁ w₂ :=
  { h with tenants := fun id => Slot.mono (fun _ _ hk => hk.congr hV) (h.tenants id) }

/-! ### Builders. -/

theorem kin (h : Mirrors c σ F W w₁ w₂) (h₁ : w₁.tenants[id.index]? = some t₁)
    (h₂ : w₂.tenants[(c.rename id).index]? = some t₂) : Kin c σ W w₁.snapshotAt? id t₁ t₂ := by
  have ht := h.tenants id
  rw [h₁, h₂] at ht
  cases ht with
  | some hk => exact hk

/-- Two builders that stand for each other are changed in the same way. -/
theorem modify (h : Mirrors c σ F W w₁ w₂) {f₁ f₂ : Tenant → Tenant}
    (hV : id = c.old ∨ ∀ i, V i ↔ W i)
    (hf : ∀ t₁ t₂, w₁.tenants[id.index]? = some t₁ → w₂.tenants[(c.rename id).index]? = some t₂ →
      Kin c σ V w₁.snapshotAt? id (f₁ t₁) (f₂ t₂)) :
    Mirrors c σ F V { w₁ with tenants := w₁.tenants.modify id.index f₁ }
      { w₂ with tenants := w₂.tenants.modify (c.rename id).index f₂ } := by
  refine { h with
    room := by simpa using h.room
    size := by simpa using h.size
    tenants := fun id' => ?_ }
  have ht := h.tenants id'
  simp only [Array.getElem?_modify]
  by_cases hid : id = id'
  · subst hid
    rw [if_pos rfl, if_pos rfl]
    rcases Slot.cases ht with ⟨h₁, h₂⟩ | ⟨t₁, t₂, h₁, h₂, -⟩
    · rw [h₁, h₂]
      exact .none
    · rw [h₁, h₂]
      exact .some (hf t₁ t₂ h₁ h₂)
  · rw [if_neg (BuilderId.index_ne hid),
      if_neg (BuilderId.index_ne fun he => hid (c.rename_inj he))]
    refine Slot.mono (fun t₁ t₂ hk => ?_) ht
    rcases hV with hold | hV
    · -- Only the indexes of the builder that is compared are kept track of.
      refine ⟨hk.builder.congr fun i => ?_, hk.cached⟩
      have hne : id' ≠ c.old := fun he => hid (hold.trans he.symm)
      exact ⟨fun _ he => absurd he hne, fun _ he => absurd he hne⟩
    · exact hk.congr hV

theorem setBuilder (h : Mirrors c σ F W w₁ w₂) {b₁ b₂ : Builder}
    (hV : id = c.old ∨ ∀ i, V i ↔ W i)
    (hb : Builder.Alike (c.gapOf id) (c.written V id) b₁ b₂) :
    Mirrors c σ F V (w₁.setBuilder id b₁) (w₂.setBuilder (c.rename id) b₂) := by
  refine h.modify hV fun t₁ t₂ h₁ h₂ => ⟨hb, ?_⟩
  exact (h.kin h₁ h₂).cached

theorem boundTo_eq (h : Mirrors c σ F W w₁ w₂) {i j : SnapshotId} (hp : σ i j) (id : BuilderId) :
    (w₁.snapshotAt? i).bind (·.boundTo?) = some id ↔
      (w₂.snapshotAt? j).bind (·.boundTo?) = some (c.rename id) := by
  obtain ⟨s₁, s₂, h₁, h₂, ht⟩ := h.paired i j hp
  have htie (s : Snapshot) : s.boundTo? = s.tie?.map (·.1) := by
    unfold Snapshot.boundTo? Snapshot.tie?
    cases s.origin <;> rfl
  rw [h₁, h₂, Option.bind_some, Option.bind_some, htie, htie, ht.tie]
  cases s₁.tie? with
  | none => simp
  | some p => simpa using ⟨fun he => he ▸ rfl, fun he => c.rename_inj he⟩

/-- Builders that stand for each other are shared alike, unless a name holds a snapshot
of an earlier life. -/
theorem isShared (h : Mirrors c σ F W w₁ w₂) (id : BuilderId) :
    w₁.isShared id = w₂.isShared (c.rename id) ∨ (c.gapOf id).adrift := by
  rw [isShared_eq, isShared_eq]
  by_cases hforeign : id = c.old ∧ ∃ i, F i
  · obtain ⟨hid, i, hi⟩ := hforeign
    right
    rw [Comparison.gapOf, if_pos hid]
    exact h.drift i hi
  · left
    refine any_eq_of_forall₂ h.holders.values fun i j hp => ?_
    rw [decide_eq_decide]
    rcases hp with hp | ⟨hi, rfl⟩
    · exact h.boundTo_eq hp id
    · -- It is bound to the builder that was taken, in both workspaces.
      obtain ⟨-, s₁, s₂, h₁, h₂, hb₁, hb₂⟩ := h.foreign i hi
      rw [h₁, h₂, Option.bind_some, Option.bind_some, hb₁, hb₂]
      constructor
      · intro he
        exact absurd ⟨(Option.some.inj he).symm, i, hi⟩ hforeign
      · intro he
        exact absurd (Option.some.inj he).symm (c.rename_ne_old id)

theorem disposeBuilder (h : Mirrors c σ F W w₁ w₂) (id : BuilderId) :
    Mirrors c σ F W (w₁.disposeBuilder id) (w₂.disposeBuilder (c.rename id)) := by
  have hshared := h.isShared id
  unfold Workspace.disposeBuilder builderAt?
  rcases Slot.cases (h.tenants id) with ⟨h₁, h₂⟩ | ⟨t₁, t₂, h₁, h₂, hk⟩
  · rw [h₁, h₂]
    exact h
  · rw [h₁, h₂]
    simp only [Option.map_some, hk.builder.disposed]
    split
    · exact h
    · refine h.modify (.inr fun _ => Iff.rfl) fun _ _ _ _ => ?_
      exact ⟨hk.builder.dispose hshared, .inl ⟨rfl, rfl⟩⟩

/-- The same builder is added to both workspaces. -/
theorem addBuilder (h : Mirrors c σ F W w₁ w₂) (b : Builder) :
    Mirrors c σ F W (w₁.addBuilder b).2 (w₂.addBuilder b).2 ∧
      c.rename (w₁.addBuilder b).1 = (w₂.addBuilder b).1 := by
  have hrename : c.rename ⟨w₁.tenants.size⟩ = ⟨w₂.tenants.size⟩ := by
    rw [c.rename_fresh h.room, h.size]
  refine ⟨{ h with
    room := by have := h.room; simp [Workspace.addBuilder]; omega
    size := by simp [Workspace.addBuilder, h.size]
    tenants := fun id => ?_ }, hrename⟩
  have ht := h.tenants id
  simp only [Workspace.addBuilder, Array.getElem?_push]
  by_cases hid : id = ⟨w₁.tenants.size⟩
  · subst hid
    have hne : (⟨w₁.tenants.size⟩ : BuilderId) ≠ c.old := by
      intro he
      have hknown := c.known
      rw [← he] at hknown
      exact absurd hknown (Nat.not_lt_of_le h.room)
    rw [if_pos rfl, hrename, if_pos rfl]
    refine .some ⟨?_, .inl ⟨rfl, rfl⟩⟩
    rw [Comparison.gapOf, if_neg hne]
    exact (Builder.Alike.refl b).congr fun i => ⟨fun _ => trivial, fun _ he => absurd he hne⟩
  · have hid₂ : c.rename id ≠ ⟨w₂.tenants.size⟩ := fun he => hid (c.rename_inj (he.trans hrename.symm))
    rw [if_neg (BuilderId.index_ne hid), if_neg (BuilderId.index_ne hid₂)]
    exact ht

theorem nameBuilder (h : Mirrors c σ F W w₁ w₂) (name : String) (id : BuilderId) :
    Mirrors c σ F W (w₁.nameBuilder name id) (w₂.nameBuilder name (c.rename id)) := by
  have hset : Mirrors c σ F W { w₁ with builderNames := w₁.builderNames.set name id }
      { w₂ with builderNames := w₂.builderNames.set name (c.rename id) } := by
    refine { h with names := fun n => ?_ }
    simp only [Table.get?_set]
    split
    · rfl
    · exact h.names n
  unfold Workspace.nameBuilder
  rw [h.names name]
  cases w₁.builderNames.get? name with
  | none => exact hset
  | some old => exact hset.disposeBuilder old

theorem addNamed (h : Mirrors c σ F W w₁ w₂) (name : String) (b : Builder) :
    Mirrors c σ F W (w₁.addNamed name b).2 (w₂.addNamed name b).2 := by
  obtain ⟨hadd, hrename⟩ := h.addBuilder b
  have hnamed := hadd.nameBuilder name (w₁.addBuilder b).1
  rw [hrename] at hnamed
  exact hnamed

theorem unnameBuilder (h : Mirrors c σ F W w₁ w₂) (name : String) :
    Mirrors c σ F W (w₁.unnameBuilder name) (w₂.unnameBuilder name) := by
  refine { h with names := fun n => ?_ }
  simp only [Workspace.unnameBuilder, Table.get?_erase]
  split
  · rfl
  · exact h.names n

/-! ### Snapshots. -/

theorem nameSnapshot (h : Mirrors c σ F W w₁ w₂) (name : String) {i j : SnapshotId}
    (hp : σ i j ∨ F i ∧ i = j) :
    Mirrors c σ F W (w₁.nameSnapshot name i) (w₂.nameSnapshot name j) :=
  { h with holders := h.holders.set name hp }

theorem unnameSnapshot (h : Mirrors c σ F W w₁ w₂) (name : String) :
    Mirrors c σ F W { w₁ with snapshotNames := w₁.snapshotNames.erase name }
      { w₂ with snapshotNames := w₂.snapshotNames.erase name } :=
  { h with holders := h.holders.erase name }

/-- Only those snapshots of earlier lives matter that a name still holds. -/
theorem restrict (h : Mirrors c σ F W w₁ w₂) :
    Mirrors c σ (fun i => F i ∧ w₁.isHeld i) W w₁ w₂ :=
  { h with
    holders := h.holders.mono fun _ _ hi hp => hp.imp id fun hf =>
      ⟨⟨hf.1, List.contains_iff_mem.mpr hi⟩, hf.2⟩
    foreign := fun i hi => h.foreign i hi.1
    drift := fun i hi => h.drift i hi.1 }

theorem isHeld (h : Mirrors c σ F W w₁ w₂) {i j : SnapshotId} (hp : σ i j) :
    w₁.isHeld i = w₂.isHeld j := by
  unfold Workspace.isHeld
  rw [List.contains_eq_any_beq, List.contains_eq_any_beq]
  refine any_eq_of_forall₂ h.holders.values fun i' j' hp' => ?_
  rw [Bool.eq_iff_iff, beq_iff_eq, beq_iff_eq]
  rcases hp' with hp' | ⟨hi, rfl⟩
  · constructor
    · rintro rfl
      exact h.left i j j' hp hp'
    · rintro rfl
      exact h.right i i' j hp hp'
  · -- A snapshot of an earlier life is paired with none.
    obtain ⟨hnone, -⟩ := h.foreign i' hi
    constructor
    · rintro rfl
      exact absurd hp (hnone j).1
    · rintro rfl
      exact absurd hp (hnone i).2

/-- Paired snapshots are changed to twins. -/
theorem setSnapshot (h : Mirrors c σ F W w₁ w₂) {i j : SnapshotId} (hp : σ i j)
    {s₁ s₁' s₂' : Snapshot} (hs₁ : w₁.snapshotAt? i = some s₁)
    (ht : Snapshot.Twin c.rename c.lag s₁' s₂')
    (hfrozen : s₁.boundTo? = none → s₁'.boundTo? = none) :
    Mirrors c σ F W (w₁.setSnapshot i s₁') (w₂.setSnapshot j s₂') := by
  refine { h with tenants := fun id => ?_, paired := ?_, foreign := ?_ }
  · refine Slot.mono (fun t₁ t₂ hk => hk.mono (fun _ _ hij => hij) fun k s hs hsp => ?_) (h.tenants id)
    rw [snapshotAt?_setSnapshot]
    by_cases hk : k = i
    · subst hk
      rw [hs] at hs₁
      cases hs₁
      rw [if_pos rfl, hs]
      refine ⟨s₁', rfl, ?_⟩
      rcases hsp with hn | ⟨hn, -⟩
      · exact .inl (hfrozen hn)
      · exact absurd hp (hn j)
    · rw [if_neg hk]
      exact ⟨s, hs, hsp⟩
  · intro k l hkl
    rw [snapshotAt?_setSnapshot, snapshotAt?_setSnapshot]
    by_cases hk : k = i
    · subst hk
      have hl := h.left k j l hp hkl
      subst hl
      obtain ⟨u₁, u₂, hu₁, hu₂, -⟩ := h.paired k j hp
      rw [if_pos rfl, if_pos rfl, hu₁, hu₂]
      exact ⟨s₁', s₂', rfl, rfl, ht⟩
    · have hl : l ≠ j := fun he => hk (h.right k i j (he ▸ hkl) hp)
      rw [if_neg hk, if_neg hl]
      exact h.paired k l hkl
  · intro k hk
    obtain ⟨hnone, u₁, u₂, hu₁, hu₂, hb⟩ := h.foreign k hk
    refine ⟨hnone, u₁, u₂, ?_, ?_, hb⟩
    · rw [snapshotAt?_setSnapshot, if_neg, hu₁]
      rintro rfl
      exact (hnone j).1 hp
    · rw [snapshotAt?_setSnapshot, if_neg, hu₂]
      rintro rfl
      exact (hnone i).2 hp

end Mirrors

/-- The pairs of `σ`, and one more. -/
def Pairing (σ : SnapshotId → SnapshotId → Prop) (i j : SnapshotId) (k l : SnapshotId) : Prop :=
  σ k l ∨ k = i ∧ l = j

theorem snapshotAt?_addSnapshot (w : Workspace) (s : Snapshot) (sid : SnapshotId) :
    (w.addSnapshot s).2.snapshotAt? sid =
      if sid = ⟨w.snapshots.size⟩ then some s else w.snapshotAt? sid := by
  simp only [snapshotAt?, addSnapshot, Array.getElem?_push]
  by_cases hsid : sid = ⟨w.snapshots.size⟩
  · rw [if_pos hsid, if_pos (by rw [hsid])]
  · have hindex : sid.index ≠ w.snapshots.size := fun he => hsid (by rw [← he])
    rw [if_neg hsid, if_neg hindex]

theorem ne_of_snapshotAt? {w : Workspace} {sid : SnapshotId} {s : Snapshot}
    (h : w.snapshotAt? sid = some s) : sid ≠ ⟨w.snapshots.size⟩ := by
  rintro rfl
  simp [snapshotAt?] at h

namespace Mirrors

/-- The snapshots `i` and `j` become a pair of twins; `j` is new, and `i` is new or stood
for none. -/
theorem pair (h : Mirrors c σ F W w₁ w₂) {i j : SnapshotId} {s₁ s₂ : Snapshot}
    {u₁ u₂ : Array Snapshot} {k₁ k₂ : Array Tenant}
    (ht : Snapshot.Twin c.rename c.lag s₁ s₂) (hfree : ∀ l, ¬ σ i l) (hi : ¬ F i)
    (hnew : w₂.snapshotAt? j = none)
    (hat₁ : ∀ k, snapshotAt? { w₁ with snapshots := u₁ } k =
      if k = i then some s₁ else w₁.snapshotAt? k)
    (hat₂ : ∀ k, snapshotAt? { w₂ with snapshots := u₂ } k =
      if k = j then some s₂ else w₂.snapshotAt? k)
    (hsize₁ : k₁.size = w₁.tenants.size) (hsize₂ : k₂.size = w₂.tenants.size)
    (htenants : ∀ id, Option.Rel (Kin c (Pairing σ i j) W
      (snapshotAt? { w₁ with snapshots := u₁ }) id) k₁[id.index]? k₂[(c.rename id).index]?) :
    Mirrors c (Pairing σ i j) F W { w₁ with snapshots := u₁, tenants := k₁ }
      { w₂ with snapshots := u₂, tenants := k₂ } := by
  have hfresh {k l : SnapshotId} (hkl : σ k l) : k ≠ i ∧ l ≠ j := by
    obtain ⟨v₁, v₂, hv₁, hv₂, -⟩ := h.paired k l hkl
    refine ⟨?_, ?_⟩
    · rintro rfl
      exact hfree l hkl
    · rintro rfl
      rw [hnew] at hv₂
      cases hv₂
  refine ⟨hsize₁ ▸ h.room, by rw [hsize₁, hsize₂]; exact h.size, htenants, h.names, ?_, ?_, ?_, ?_,
    ?_, h.drift⟩
  · exact h.holders.mono fun i j _ hp => hp.imp_left .inl
  · rintro k l (hkl | ⟨rfl, rfl⟩)
    · obtain ⟨v₁, v₂, hv₁, hv₂, hv⟩ := h.paired k l hkl
      refine ⟨v₁, v₂, ?_, ?_, hv⟩
      · exact (hat₁ k).trans (by rw [if_neg (hfresh hkl).1, hv₁])
      · exact (hat₂ l).trans (by rw [if_neg (hfresh hkl).2, hv₂])
    · exact ⟨s₁, s₂, (hat₁ k).trans (if_pos rfl), (hat₂ l).trans (if_pos rfl), ht⟩
  · rintro k l l' (hkl | ⟨rfl, rfl⟩) (hkl' | ⟨hk, rfl⟩)
    · exact h.left k l l' hkl hkl'
    · exact absurd hk (hfresh hkl).1
    · exact absurd rfl (hfresh hkl').1
    · rfl
  · rintro k k' l (hkl | ⟨rfl, rfl⟩) (hkl' | ⟨rfl, hl⟩)
    · exact h.right k k' l hkl hkl'
    · exact absurd hl (hfresh hkl).2
    · exact absurd rfl (hfresh hkl').2
    · rfl
  · intro k hk
    obtain ⟨hnone, v₁, v₂, hv₁, hv₂, hb⟩ := h.foreign k hk
    have hne₁ : k ≠ i := by
      rintro rfl
      exact hi hk
    have hne₂ : k ≠ j := by
      rintro rfl
      rw [hnew] at hv₂
      cases hv₂
    refine ⟨fun l => ⟨?_, ?_⟩, v₁, v₂, ?_, ?_, hb⟩
    · rintro (hl | ⟨he, -⟩)
      · exact (hnone l).1 hl
      · exact hne₁ he
    · rintro (hl | ⟨-, he⟩)
      · exact (hnone l).2 hl
      · exact hne₂ he
    · exact (hat₁ k).trans (by rw [if_neg hne₁, hv₁])
    · exact (hat₂ k).trans (by rw [if_neg hne₂, hv₂])

/-- Twins are added. -/
theorem addSnapshot (h : Mirrors c σ F W w₁ w₂) {s₁ s₂ : Snapshot}
    (ht : Snapshot.Twin c.rename c.lag s₁ s₂) :
    Mirrors c (Pairing σ ⟨w₁.snapshots.size⟩ ⟨w₂.snapshots.size⟩) F W
      (w₁.addSnapshot s₁).2 (w₂.addSnapshot s₂).2 := by
  have hnone (w : Workspace) : w.snapshotAt? ⟨w.snapshots.size⟩ = none := by simp [snapshotAt?]
  have hfree (j : SnapshotId) : ¬ σ ⟨w₁.snapshots.size⟩ j := by
    intro hp
    obtain ⟨u₁, -, hu₁, -⟩ := h.paired _ j hp
    rw [hnone] at hu₁
    cases hu₁
  have hforeign : ¬ F ⟨w₁.snapshots.size⟩ := by
    intro hf
    obtain ⟨-, u₁, -, hu₁, -⟩ := h.foreign _ hf
    rw [hnone] at hu₁
    cases hu₁
  refine h.pair ht hfree hforeign (hnone w₂) (snapshotAt?_addSnapshot w₁ s₁)
    (snapshotAt?_addSnapshot w₂ s₂) rfl rfl fun id => ?_
  refine Slot.mono (fun t₁ t₂ hk => hk.mono (fun _ _ => .inl) fun k s hs hsp => ?_) (h.tenants id)
  have hne := ne_of_snapshotAt? hs
  refine ⟨s, ?_, hsp.imp_right fun hsp => ?_⟩
  · exact (snapshotAt?_addSnapshot w₁ s₁ k).trans (by rw [if_neg hne, hs])
  · exact ⟨fun j hj => hj.elim (hsp.1 j) fun he => hne he.1, hsp.2⟩

/-- A snapshot of an earlier life is used again where the second workspace adds one. -/
theorem revive (h : Mirrors c σ F W w₁ w₂) {i : SnapshotId} {s₁ s₂ : Snapshot}
    (hs : (w₁.snapshotAt? i).isSome) (ht : Snapshot.Twin c.rename c.lag s₁ s₂)
    (hfree : ∀ j, ¬ σ i j) (hi : ¬ F i)
    (hcached : ∀ t₁, w₁.tenants[c.old.index]? = some t₁ → t₁.cached = some i) :
    Mirrors c (Pairing σ i ⟨w₂.snapshots.size⟩) F W (w₁.setSnapshot i s₁)
      { (w₂.addSnapshot s₂).2 with
        tenants := w₂.tenants.modify (c.rename c.old).index
          fun t => { t with cached := some ⟨w₂.snapshots.size⟩ } } := by
  have hnone : w₂.snapshotAt? ⟨w₂.snapshots.size⟩ = none := by simp [snapshotAt?]
  have hat₁ (k : SnapshotId) : (w₁.setSnapshot i s₁).snapshotAt? k =
      if k = i then some s₁ else w₁.snapshotAt? k := by
    rw [snapshotAt?_setSnapshot]
    obtain ⟨s, hs⟩ := Option.isSome_iff_exists.mp hs
    rw [hs]
    rfl
  refine h.pair ht hfree hi hnone hat₁ (snapshotAt?_addSnapshot w₂ s₂) rfl (by simp) fun id => ?_
  have hk := h.tenants id
  rw [Array.getElem?_modify]
  by_cases hid : id = c.old
  · -- The builder that is compared keeps the pair.
    subst hid
    rw [if_pos rfl]
    rcases Slot.cases hk with ⟨h₁, h₂⟩ | ⟨t₁, t₂, h₁, h₂, hk⟩
    · rw [h₁, h₂]
      exact .none
    · rw [h₁, h₂]
      exact .some ⟨hk.builder, .inr (.inl ⟨i, _, hcached t₁ h₁, rfl, .inr ⟨rfl, rfl⟩⟩)⟩
  · rw [if_neg (BuilderId.index_ne fun he => hid (c.rename_inj he.symm))]
    refine Slot.mono (fun t₁ t₂ hk => ⟨hk.builder, ?_⟩) hk
    rcases hk.cached with hn | ⟨k, l, h₁, h₂, hp⟩ | ⟨he, -⟩
    · exact .inl hn
    · exact .inr (.inl ⟨k, l, h₁, h₂, .inl hp⟩)
    · exact absurd he hid

end Mirrors

/-- What is known of the builders of a session. -/
structure Sound (w : Workspace) : Prop where
  bounded : w.Bounded
  consistent : w.Consistent
  whole : ∀ id b, w.builderAt? id = some b → b.Whole

theorem sound_run (steps : List Step) : (run {} steps).Sound :=
  ⟨bounded_run steps, consistent_run steps, whole_run steps⟩

theorem Sound.after {w : Workspace} (h : w.Sound) (s : Step) : (w.after s).Sound :=
  ⟨h.bounded.after s, h.consistent.after s, durable_whole.after h.whole s⟩

theorem Sound.run {w : Workspace} (h : w.Sound) (steps : List Step) : (w.run steps).Sound := by
  induction steps generalizing w with
  | nil => exact h
  | cons s rest ih => exact ih (h.after s)

namespace Mirrors

/-- **The builders of two workspaces that mirror each other publish the same content.** -/
theorem views (h : Mirrors c σ F W w₁ w₂) (hw₁ : w₁.Sound) (hw₂ : w₂.Sound) :
    Snapshot.Views c.rename c.lag w₁.see w₂.see := by
  have hsee (id : BuilderId) :
      (w₁.see id).version = (w₂.see (c.rename id)).version + c.lag id ∧
      (w₁.see id).length = (w₂.see (c.rename id)).length ∧
      (w₁.see id).region.slice 0 (w₁.see id).length =
        (w₂.see (c.rename id)).region.slice 0 (w₂.see (c.rename id)).length := by
    rcases Slot.cases (h.tenants id) with ⟨h₁, h₂⟩ | ⟨t₁, t₂, h₁, h₂, hk⟩
    · -- The builder that is compared exists.
      have hne : id ≠ c.old := by
        rintro rfl
        have hknown := c.known
        have hroom := h.room
        rw [Array.getElem?_eq_none_iff] at h₁
        omega
      have hdefault {w : Workspace} {id : BuilderId} (hn : w.tenants[id.index]? = none) :
          w.see id = ⟨.allocate 0, 0, 0⟩ := by
        rw [see, builderAt?, hn]
        rfl
      rw [hdefault h₁, hdefault h₂, Comparison.lag, Comparison.gapOf, if_neg hne]
      exact ⟨rfl, rfl, rfl⟩
    · have hb₁ := builderAt?_of_tenant h₁
      have hb₂ := builderAt?_of_tenant h₂
      have hc₁ := hw₁.consistent id _ hb₁
      have hc₂ := hw₂.consistent _ _ hb₂
      rw [see_of_builderAt? hb₁, see_of_builderAt? hb₂, hc₁.version, hc₁.length,
        hc₂.version, hc₂.length]
      refine ⟨hk.builder.version, hk.builder.length.symm, ?_⟩
      exact hk.builder.units_eq (hw₁.bounded id _ hb₁) (hw₂.bounded _ _ hb₂)
        (hw₁.whole id _ hb₁)
  exact ⟨fun id => (hsee id).1, fun id => (hsee id).2.1, fun id => (hsee id).2.2⟩

/-- A new snapshot on both sides. -/
theorem addFresh (h : Mirrors c σ F W w₁ w₂) (hk : Kin c σ W w₁.snapshotAt? id t₁ t₂) :
    Mirrors c (Pairing σ ⟨w₁.snapshots.size⟩ ⟨w₂.snapshots.size⟩) F W
      { (w₁.addSnapshot (.bind id t₁.builder)).2 with
        tenants := w₁.tenants.modify id.index
          fun t => { t with cached := some ⟨w₁.snapshots.size⟩ } }
      { (w₂.addSnapshot (.bind (c.rename id) t₂.builder)).2 with
        tenants := w₂.tenants.modify (c.rename id).index
          fun t => { t with cached := some ⟨w₂.snapshots.size⟩ } } := by
  have hadd := h.addSnapshot hk.twin_bind
  refine hadd.modify (.inr fun _ => Iff.rfl) fun t₁ t₂ h₁ h₂ => ?_
  exact ⟨(hadd.kin h₁ h₂).builder, .inr (.inl ⟨_, _, rfl, rfl, .inr ⟨rfl, rfl⟩⟩)⟩

theorem takeSnapshot_of_none {w : Workspace} {t : Tenant} (id : BuilderId)
    (h : w.reusable? t = none) : w.takeSnapshot id t =
      (⟨w.snapshots.size⟩, { (w.addSnapshot (.bind id t.builder)).2 with
        tenants := w.tenants.modify id.index
          fun t => { t with cached := some ⟨w.snapshots.size⟩ } }) := by
  rw [takeSnapshot, h]
  rfl

theorem takeSnapshot_of_some {w : Workspace} {t : Tenant} (id : BuilderId) {sid : SnapshotId}
    {s : Snapshot} (h : w.reusable? t = some (sid, s)) :
    w.takeSnapshot id t = (sid, w.setSnapshot sid s) := by
  rw [takeSnapshot, h]

theorem reusable?_of_cached {w : Workspace} {t : Tenant} {i : SnapshotId} {s : Snapshot}
    (hc : t.cached = some i) (hs : w.snapshotAt? i = some s) : w.reusable? t =
      if w.isHeld i then none else (s.recycle? w.see).map fun s => (i, s) := by
  have hs' : w.snapshots[i.index]? = some s := hs
  rw [reusable?, hc]
  simp only [hs', Option.bind_some]

/-- The snapshots that are taken on both sides become a pair. -/
def TakenAlike (c : Comparison) (F : SnapshotId → Prop) (W : Nat → Prop) (w₁ w₂ : Workspace)
    (id : BuilderId) (t₁ t₂ : Tenant) : Prop :=
  ∃ σ, Mirrors c σ F W (w₁.takeSnapshot id t₁).2 (w₂.takeSnapshot (c.rename id) t₂).2 ∧
    σ (w₁.takeSnapshot id t₁).1 (w₂.takeSnapshot (c.rename id) t₂).1

/-- Neither side uses a snapshot again. -/
theorem takeSnapshot_fresh (h : Mirrors c σ F W w₁ w₂) (hk : Kin c σ W w₁.snapshotAt? id t₁ t₂)
    (h₁ : w₁.reusable? t₁ = none) (h₂ : w₂.reusable? t₂ = none) :
    TakenAlike c F W w₁ w₂ id t₁ t₂ := by
  unfold TakenAlike
  rw [takeSnapshot_of_none id h₁, takeSnapshot_of_none (c.rename id) h₂]
  exact ⟨_, h.addFresh hk, .inr ⟨rfl, rfl⟩⟩

/-- The builders made paired snapshots last. -/
theorem takeSnapshot_paired (h : Mirrors c σ F W w₁ w₂) (hw₁ : w₁.Sound) (hw₂ : w₂.Sound)
    (hk : Kin c σ W w₁.snapshotAt? id t₁ t₂) {i j : SnapshotId} (hp : σ i j)
    (h₁ : t₁.cached = some i) (h₂ : t₂.cached = some j) : TakenAlike c F W w₁ w₂ id t₁ t₂ := by
  obtain ⟨s₁, s₂, hs₁, hs₂, ht⟩ := h.paired i j hp
  have hr₁ := reusable?_of_cached h₁ hs₁
  have hr₂ := reusable?_of_cached h₂ hs₂
  rw [← h.isHeld hp] at hr₂
  by_cases hheld : w₁.isHeld i = true
  · exact h.takeSnapshot_fresh hk (by rw [hr₁, if_pos hheld]) (by rw [hr₂, if_pos hheld])
  · rw [if_neg hheld] at hr₁ hr₂
    rcases Slot.cases (ht.recycle? (h.views hw₁ hw₂)) with ⟨he₁, he₂⟩ | ⟨s₁', s₂', he₁, he₂, ht'⟩
    · exact h.takeSnapshot_fresh hk (by rw [hr₁, he₁]; rfl) (by rw [hr₂, he₂]; rfl)
    · rw [he₁] at hr₁
      rw [he₂] at hr₂
      unfold TakenAlike
      rw [takeSnapshot_of_some id hr₁, takeSnapshot_of_some (c.rename id) hr₂]
      refine ⟨σ, h.setSnapshot hp hs₁ ht' fun hn => ?_, hp⟩
      rw [boundTo?_recycle? he₁, hn]

/-- The builder that is compared made its last snapshot in an earlier life. -/
theorem takeSnapshot_spent (h : Mirrors c σ F W w₁ w₂) (hw₁ : w₁.Sound)
    (hF : ∀ i, F i → w₁.isHeld i = true) (hpast : ∀ v, c.past v → (w₁.see c.old).version ≠ v)
    (hat : w₁.tenants[c.old.index]? = some t₁) (hk : Kin c σ W w₁.snapshotAt? c.old t₁ t₂)
    {i : SnapshotId} {s : Snapshot} (h₁ : t₁.cached = some i) (h₂ : t₂.cached = none)
    (hs : w₁.snapshotAt? i = some s) (hspent : c.Spent σ i s) :
    TakenAlike c F W w₁ w₂ c.old t₁ t₂ := by
  have hr₂ : w₂.reusable? t₂ = none := by rw [reusable?, h₂]
  have hr₁ := reusable?_of_cached h₁ hs
  by_cases hheld : w₁.isHeld i = true
  · exact h.takeSnapshot_fresh hk (by rw [hr₁, if_pos hheld]) hr₂
  · rw [if_neg hheld] at hr₁
    rcases hspent with hn | ⟨hfree, v, n, ho, hold⟩
    · have hfrozen : s.isFrozen = true := by rw [Snapshot.isFrozen, hn]; rfl
      rw [Snapshot.recycle?_of_untied (Snapshot.tie?_of_frozen hfrozen)] at hr₁
      exact h.takeSnapshot_fresh hk hr₁ hr₂
    · -- It is bound to the present content, and stands for a new one from now on.
      have htie : s.tie? = some (c.old, v) := by rw [Snapshot.tie?, ho]
      rw [Snapshot.recycle?_of_tied htie, ← apply_ite some] at hr₁
      unfold TakenAlike
      rw [takeSnapshot_of_some c.old hr₁, takeSnapshot_of_none (c.rename c.old) hr₂]
      have hb₁ := builderAt?_of_tenant hat
      have hc := hw₁.consistent _ _ hb₁
      have hsee := see_of_builderAt? hb₁
      have htwin := hk.twin_revived (by rw [hsee, hc.version]) (by rw [hsee, hc.length]) ho hold hpast
      refine ⟨_, h.revive (by rw [hs]; rfl) htwin hfree (fun hf => hheld (hF i hf)) fun t ht => ?_,
        .inr ⟨rfl, rfl⟩⟩
      rw [hat] at ht
      cases ht
      exact h₁

/-- **A snapshot that is taken** is new on both sides, or used again on both sides, or used
again from an earlier life of the builder on one and new on the other. -/
theorem takeSnapshot (h : Mirrors c σ F W w₁ w₂) (hw₁ : w₁.Sound) (hw₂ : w₂.Sound)
    (hF : ∀ i, F i → w₁.isHeld i = true) (hpast : ∀ v, c.past v → (w₁.see c.old).version ≠ v)
    (h₁ : w₁.tenants[id.index]? = some t₁) (h₂ : w₂.tenants[(c.rename id).index]? = some t₂) :
    TakenAlike c F W w₁ w₂ id t₁ t₂ := by
  have hk := h.kin h₁ h₂
  rcases hk.cached with ⟨hc₁, hc₂⟩ | ⟨i, j, hc₁, hc₂, hp⟩ | ⟨rfl, hc₂, i, s, hc₁, hs, hsp⟩
  · exact h.takeSnapshot_fresh hk (by rw [reusable?, hc₁]) (by rw [reusable?, hc₂])
  · exact h.takeSnapshot_paired hw₁ hw₂ hk hp hc₁ hc₂
  · exact h.takeSnapshot_spent hw₁ hF hpast h₁ hk hc₁ hc₂ hs hsp

/-! ### Looking up. -/

/-- A name stands for the same on both sides, or for nothing on either. -/
theorem builder (h : Mirrors c σ F W w₁ w₂) (name : String) :
    (∃ id t₁ t₂, w₁.builder name = .ok (id, t₁) ∧ w₂.builder name = .ok (c.rename id, t₂) ∧
      w₁.tenants[id.index]? = some t₁ ∧ w₂.tenants[(c.rename id).index]? = some t₂ ∧
      Kin c σ W w₁.snapshotAt? id t₁ t₂) ∨
    (w₁.builder name = .error (.unknownName name) ∧ w₂.builder name = .error (.unknownName name) ∧
      w₁.builder? name = none ∧ w₂.builder? name = none) := by
  have hnames := h.names name
  unfold Workspace.builder builderId builder? builderAt?
  cases hn : w₁.builderNames.get? name with
  | none =>
      rw [hn] at hnames
      rw [hnames]
      exact .inr ⟨rfl, rfl, rfl, rfl⟩
  | some id =>
      rw [hn] at hnames
      rw [hnames]
      dsimp only [bind, Except.bind, Option.map_some, Option.bind_some]
      rcases Slot.cases (h.tenants id) with ⟨h₁, h₂⟩ | ⟨t₁, t₂, h₁, h₂, hk⟩
      · rw [h₁, h₂]
        exact .inr ⟨rfl, rfl, rfl, rfl⟩
      · rw [h₁, h₂]
        exact .inl ⟨id, t₁, t₂, rfl, rfl, h₁, h₂, hk⟩

/-- A name holds paired snapshots, or one of an earlier life, or nothing on either side. -/
theorem snapshot (h : Mirrors c σ F W w₁ w₂) (name : String) :
    (∃ i j s₁ s₂, w₁.snapshot name = .ok (i, s₁) ∧ w₂.snapshot name = .ok (j, s₂) ∧ σ i j ∧
      Snapshot.Twin c.rename c.lag s₁ s₂) ∨
    (∃ i s₁ s₂, w₁.snapshot name = .ok (i, s₁) ∧ w₂.snapshot name = .ok (i, s₂) ∧ F i) ∨
    (w₁.snapshot name = .error (.unknownName name) ∧
      w₂.snapshot name = .error (.unknownName name)) := by
  have hfound {w : Workspace} {i : SnapshotId} {s : Snapshot}
      (hi : w.snapshotNames.get? name = some i) (hs : w.snapshotAt? i = some s) :
      w.snapshot name = .ok (i, s) := by
    have hs' : w.snapshots[i.index]? = some s := hs
    simp only [Workspace.snapshot, hi, hs']
  rcases Slot.cases (h.holders.get? name) with ⟨h₁, h₂⟩ | ⟨i, j, h₁, h₂, hp⟩
  · refine .inr (.inr ⟨?_, ?_⟩)
    · simp only [Workspace.snapshot, h₁]
    · simp only [Workspace.snapshot, h₂]
  · rcases hp with hp | ⟨hi, rfl⟩
    · obtain ⟨s₁, s₂, hs₁, hs₂, ht⟩ := h.paired i j hp
      exact .inl ⟨i, j, s₁, s₂, hfound h₁ hs₁, hfound h₂ hs₂, hp, ht⟩
    · obtain ⟨-, s₁, s₂, hs₁, hs₂, -⟩ := h.foreign i hi
      exact .inr (.inl ⟨i, s₁, s₂, hfound h₁ hs₁, hfound h₂ hs₂, hi⟩)

end Mirrors

end Mirroring

end Workspace

end ValueText
