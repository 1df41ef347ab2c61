/-
  ValueText.Proofs.Buffer.Ownership — who owns the builders of a workspace.

  A builder belongs to one name, or waits in one pool, or to nobody.  A step moves
  builders between owners; what is moved to a new owner belonged to nobody
  before, because it was just made, taken from its pool or lost its name.

  Main results:

    • `Owned`        no builder has two owners, and every idle one is `Ready`: empty,
                     alive, of the capacity and the policy of its pool;
    • `owned_run`    this holds in every session;
    • `idle_after`   a builder that a step puts into a pool is cleared by it;
    • `whole_run`    a builder that is alive can use all of its memory.
-/
import ValueText.Proofs.Buffer.Bounded
import ValueText.Proofs.Buffer.Reading

namespace ValueText

/-! ## §1. What the operations of a builder leave alone. -/

namespace Region

theorem length_units (r : Region) : r.units.length = r.capacity := by
  unfold units capacity
  split <;> simp

theorem Steady.capacity {fill : Region → Region} (h : Steady fill) (r : Region) :
    (fill r).capacity = r.capacity := by
  rw [Region.capacity, Region.capacity, h.ownership, h.size]

end Region

namespace Builder

/-- `b'` is `b` but for what it contains and counts. -/
structure Framed (b b' : Builder) : Prop where
  capacity : b'.capacity = b.capacity
  policy : b'.policy = b.policy
  disposed : b'.disposed = b.disposed
  memory : b'.region.capacity = b.region.capacity
  ownership : b'.region.ownership = b.region.ownership

namespace Framed

variable {b b₁ b₂ : Builder}

theorem refl (b : Builder) : Framed b b := ⟨rfl, rfl, rfl, rfl, rfl⟩

theorem trans (h₁ : Framed b b₁) (h₂ : Framed b₁ b₂) : Framed b b₂ :=
  ⟨h₂.capacity.trans h₁.capacity, h₂.policy.trans h₁.policy, h₂.disposed.trans h₁.disposed,
    h₂.memory.trans h₁.memory, h₂.ownership.trans h₁.ownership⟩

theorem overflow (b : Builder) (requested available : Nat) :
    Framed b (b.overflow requested available).2 := by
  unfold Builder.overflow
  split <;> exact ⟨rfl, rfl, rfl, rfl, rfl⟩

theorem fill (b : Builder) {change : Region → Region} (hs : Region.Steady change) :
    Framed b (b.withRegion (change b.region)) :=
  ⟨rfl, rfl, rfl, hs.capacity b.region, hs.ownership b.region⟩

theorem commit (b : Builder) (n : Nat) : Framed b (b.commit n) := ⟨rfl, rfl, rfl, rfl, rfl⟩

theorem put (b : Builder) (i : Nat) (u : CodeUnit) :
    Framed b (b.withRegion (b.region.put i u)) := fill b (Region.steady_write i [u])

theorem reserve (b : Builder) (count : Nat) {change : Region → Region}
    (hs : Region.Steady change) : Framed b (b.reserve count change).2 := by
  unfold Builder.reserve
  split
  · exact (fill b hs).trans (commit _ _)
  · exact overflow b _ _

theorem appendUnits (b : Builder) (us : List CodeUnit) : Framed b (b.appendUnits us).2 :=
  reserve b _ (Region.steady_write _ us)

theorem appendInt (b : Builder) (w : IntWidth) (n : Int) : Framed b (b.appendInt w n).2 := by
  refine reserve b _ ⟨fun r => ?_, fun r => ?_⟩
  · rw [(steady_writeDigits _ _ _).size]
    split <;> simp
  · rw [(steady_writeDigits _ _ _).ownership]
    split <;> rfl

theorem truncate (b : Builder) (n : Nat) : Framed b (b.truncate n) := by
  unfold Builder.truncate
  split
  · exact commit b n
  · exact refl b

theorem terminate (b : Builder) : Framed b b.terminate.2 := by
  unfold Builder.terminate
  split
  · exact put b _ _
  · have ho := overflow b 1 0
    split
    · next e b' he => rw [he] at ho; exact ho
    · next v b' he =>
        rw [he] at ho
        split
        · exact (ho.trans (put _ _ _)).trans (commit _ _)
        · exact ho

theorem set? {i : Nat} {u : CodeUnit} {b' : Builder} (h : b.set? i u = some b') :
    Framed b b' := by
  simp only [Builder.set?, Region.store?, Option.map_eq_some_iff] at h
  obtain ⟨r, hr, rfl⟩ := h
  split at hr
  · cases hr
    exact put b i u
  · cases hr

theorem sink (b : Builder) (s : String) : Framed b (b.sink s).2 := by
  have ha := appendUnits b (CodeUnit.encode s)
  unfold Builder.sink appendText
  split
  · next v b' he => rw [he] at ha; exact ha
  · next e b' he => rw [he] at ha; exact ⟨ha.capacity, ha.policy, ha.disposed, ha.memory, ha.ownership⟩

theorem sinkTo (v : Display) : ∀ b : Builder, Framed b (v.sinkTo b).2 := by
  induction v with
  | done ok => exact refl
  | write s next ih => exact fun b => (sink b s).trans (ih _ _)

theorem appendDisplay (b : Builder) (v : Display) : Framed b (b.appendDisplay v).2 := by
  have hs := sinkTo v b
  have ht := hs.trans (truncate _ b.length)
  exact appendDisplay_induct hs ⟨ht.capacity, ht.policy, ht.disposed, ht.memory, ht.ownership⟩

theorem appendPieces (b : Builder) (pieces : List String) (complete : Bool) :
    Framed b (b.appendPieces pieces complete).2 := by
  rw [appendPieces_eq]
  exact appendDisplay b _

end Framed

/-- A builder that is alive has its memory and may fill all of it, a disposed one may fill
none. -/
structure Whole (b : Builder) : Prop where
  alive : b.disposed = false → b.region.capacity = b.capacity
  unreleased : b.disposed = false → b.region.ownership ≠ .released
  disposed : b.disposed = true → b.capacity = 0

theorem whole_ofRegion {r : Region} (hr : r.ownership ≠ .released) (policy : OverflowPolicy) :
    (ofRegion r policy).Whole := ⟨fun _ => rfl, fun _ => hr, fun h => nomatch h⟩

namespace Whole

variable {b b' : Builder}

theorem framed (h : b.Whole) (hf : Framed b b') : b'.Whole := by
  refine ⟨fun hd => ?_, fun hd => ?_, fun hd => ?_⟩
  · rw [hf.memory, hf.capacity]
    exact h.alive (hf.disposed ▸ hd)
  · rw [hf.ownership]
    exact h.unreleased (hf.disposed ▸ hd)
  · rw [hf.capacity]
    exact h.disposed (hf.disposed ▸ hd)

theorem dispose (h : b.Whole) (shared : Bool) : (b.dispose shared).Whole := by
  unfold Builder.dispose
  split
  · exact h
  · cases shared <;> exact ⟨fun hd => (nomatch hd), fun hd => (nomatch hd), fun _ => rfl⟩

theorem clear (h : b.Whole) : b.clear.Whole := ⟨h.alive, h.unreleased, h.disposed⟩

theorem handled (h : b.Whole) (hh : Handled b b') : b'.Whole := by
  obtain ⟨b₁, h₁, b₂, h₂, hd⟩ := hh
  have hb₁ : b₁.Whole := by
    rcases h₁ with rfl | ⟨s, rfl⟩
    · exact h
    · exact h.framed (Framed.appendUnits b _)
  have hb₂ : b₂.Whole := by
    rcases h₂ with rfl | rfl
    · exact hb₁
    · exact hb₁.clear
  rcases hd with rfl | ⟨shared, rfl⟩
  · exact hb₂
  · exact hb₂.dispose shared

end Whole

/-- A builder that is as the pool would make it, but for what its memory holds and
for its counters. -/
structure Ready (o : PoolOptions) (b : Builder) : Prop where
  length : b.length = 0
  disposed : b.disposed = false
  capacity : b.capacity = o.builder.capacity
  policy : b.policy = o.builder.policy

theorem ready_new (o : PoolOptions) : (new o.builder).Ready o := by
  exact ⟨rfl, rfl, Region.capacity_allocate o.builder.capacity, rfl⟩

theorem ready_clear {β : Type} {p : Pool β} {b : Builder} (h : p.fate b = .kept) :
    Ready p.options b.clear := by
  unfold Pool.fate Pool.suits at h
  split at h
  · cases h
  · next hd =>
      split at h
      · next hs =>
          simp only [Bool.and_eq_true, decide_eq_true_eq] at hs
          exact ⟨rfl, Bool.eq_false_iff.mpr hd, hs.1, hs.2⟩
      · cases h

end Builder

namespace Workspace

variable {w w' : Workspace}

/-- An edit other than disposing leaves everything but the content alone. -/
theorem framed_edited (w : Workspace) (id : BuilderId) (b : Builder) {e : Edit}
    (he : e ≠ .dispose) : Builder.Framed b (w.edited id b e) := by
  cases e with
  | unit u => exact .appendUnits b _
  | units us => exact .appendUnits b us
  | char c => exact .appendUnits b _
  | repeated u n => exact .reserve b _ (Region.steady_write _ _)
  | text s => exact .appendUnits b _
  | bool v => exact .appendUnits b _
  | int width n => exact .appendInt b width n
  | pieces ps complete => exact .appendPieces b ps complete
  | sink s => exact .sink b s
  | builder other =>
      simp only [edited]
      cases w.builder? other with
      | none => exact .refl b
      | some o => exact .reserve b _ (Region.steady_write _ _)
  | snapshot name =>
      simp only [edited]
      cases w.reading? name with
      | none => exact .refl b
      | some us => exact .appendUnits b us
  | terminate => exact .terminate b
  | clear => exact ⟨rfl, rfl, rfl, rfl, rfl⟩
  | dispose => exact absurd rfl he
  | truncate n => exact .truncate b n
  | get i => exact .refl b
  | set i u =>
      simp only [edited]
      cases hset : b.set? i u with
      | none => exact .refl b
      | some b' => exact .set? hset

theorem durable_whole : Durable Builder.Whole := by
  refine ⟨fun _ policy hr => Builder.whole_ofRegion hr policy, fun w id b e h => ?_,
    fun _ _ hh h => h.handled hh⟩
  by_cases he : e = .dispose
  · subst he
    exact h.dispose _
  · exact h.framed (framed_edited w id b he)

/-- **A builder that is alive can use all of its memory.** -/
theorem whole_run (steps : List Step) :
    ∀ id b, (run {} steps).builderAt? id = some b → b.Whole :=
  durable_whole.run_empty steps

/-! ## §2. What the operations of a workspace leave alone. -/

theorem disposeBuilder_eq (w : Workspace) (id : BuilderId) :
    ∃ tenants, w.disposeBuilder id = { w with tenants := tenants } := by
  unfold disposeBuilder
  split
  · exact ⟨_, rfl⟩
  · split <;> exact ⟨_, rfl⟩

theorem disposeBuilders_eq (ids : List BuilderId) : ∀ w : Workspace, ∃ tenants,
    ids.foldl (fun w id => w.disposeBuilder id) w = { w with tenants := tenants } := by
  induction ids with
  | nil => intro w; exact ⟨_, rfl⟩
  | cons id ids ih =>
      intro w
      obtain ⟨tenants, he⟩ := disposeBuilder_eq w id
      rw [List.foldl_cons, he]
      exact ih _

theorem nameBuilder_eq (w : Workspace) (name : String) (id : BuilderId) : ∃ tenants,
    w.nameBuilder name id =
      { w with tenants := tenants, builderNames := w.builderNames.set name id } := by
  unfold nameBuilder
  split
  · exact disposeBuilder_eq _ _
  · exact ⟨_, rfl⟩

theorem poolNames_disposeBuilder (w : Workspace) (id : BuilderId) :
    (w.disposeBuilder id).poolNames = w.poolNames := by
  obtain ⟨tenants, he⟩ := disposeBuilder_eq w id
  rw [he]

theorem poolNames_disposeBuilders (w : Workspace) (ids : List BuilderId) :
    (ids.foldl (fun w id => w.disposeBuilder id) w).poolNames = w.poolNames := by
  obtain ⟨tenants, he⟩ := disposeBuilders_eq ids w
  rw [he]

theorem poolNames_nameBuilder (w : Workspace) (name : String) (id : BuilderId) :
    (w.nameBuilder name id).poolNames = w.poolNames := by
  obtain ⟨tenants, he⟩ := nameBuilder_eq w name id
  rw [he]

theorem takeFrom_eq (w : Workspace) (p : String) (pool : Pool BuilderId) :
    ∃ tenants poolNames, (w.takeFrom p pool).2 =
      { w with tenants := tenants, poolNames := poolNames } := by
  unfold takeFrom
  split <;> exact ⟨_, _, rfl⟩

theorem giveBackTo_eq (w : Workspace) (p : String) (pool : Pool BuilderId) (id : BuilderId) :
    ∃ tenants poolNames, w.giveBackTo p pool id =
      { w with tenants := tenants, poolNames := poolNames } := by
  unfold giveBackTo
  split
  · exact ⟨_, _, rfl⟩
  · split
    · exact ⟨_, _, rfl⟩
    · obtain ⟨tenants, he⟩ := disposeBuilder_eq w id
      exact ⟨tenants, _, he⟩
    · obtain ⟨tenants, he⟩ := disposeBuilder_eq (w.setBuilder id _) id
      exact ⟨tenants, _, he⟩
    · exact ⟨_, _, rfl⟩

theorem takeSnapshot_eq (w : Workspace) (id : BuilderId) (t : Tenant) :
    ∃ tenants snapshots, (w.takeSnapshot id t).2 =
      { w with tenants := tenants, snapshots := snapshots } := by
  unfold takeSnapshot
  split <;> exact ⟨_, _, rfl⟩

theorem look_eq (w : Workspace) (id : SnapshotId) (s : Snapshot) (l : Look) :
    ∃ snapshots, (w.look id s l).2 = { w with snapshots := snapshots } := by
  cases l <;> simp only [look] <;> split <;> exact ⟨_, rfl⟩

/-! ## §3. Owners. -/

/-- The builder waits in a pool. -/
def Idle (w : Workspace) (id : BuilderId) : Prop :=
  ∃ p pool, w.poolNames.get? p = some pool ∧ id ∈ pool.idle

theorem get?_setPool (w : Workspace) (p : String) (P : Pool BuilderId) (q : String) :
    (w.setPool p P).poolNames.get? q = if p = q then some P else w.poolNames.get? q :=
  Table.get?_set w.poolNames p q P

/-- The builder has no name and waits in no pool. -/
structure Unowned (w : Workspace) (id : BuilderId) : Prop where
  unnamed : ∀ n, w.builderNames.get? n ≠ some id
  busy : ¬ w.Idle id

/-- No builder has two owners, and those that wait are ready. -/
structure Owned (w : Workspace) : Prop where
  named : ∀ n m id, w.builderNames.get? n = some id → w.builderNames.get? m = some id → n = m
  apart : ∀ n id, w.builderNames.get? n = some id → ¬ w.Idle id
  pooled : ∀ p q P Q id, w.poolNames.get? p = some P → w.poolNames.get? q = some Q →
    id ∈ P.idle → id ∈ Q.idle → p = q
  nodup : ∀ p P, w.poolNames.get? p = some P → P.idle.Nodup
  there : ∀ n id, w.builderNames.get? n = some id → ∃ b, w.builderAt? id = some b
  ready : ∀ p P id, w.poolNames.get? p = some P → id ∈ P.idle →
    ∃ b, w.builderAt? id = some b ∧ b.Ready P.options

namespace Owned

variable {id : BuilderId} {name : String}

/-- Owners stay as long as the builders do, and the idle ones are left alone. -/
theorem frame (h : w.Owned) (hn : w'.builderNames = w.builderNames)
    (hp : w'.poolNames = w.poolNames)
    (hthere : ∀ id b, w.builderAt? id = some b → ∃ b', w'.builderAt? id = some b')
    (hidle : ∀ id, w.Idle id → w'.builderAt? id = w.builderAt? id) : w'.Owned := by
  refine ⟨?_, ?_, ?_, ?_, ?_, ?_⟩
  · rw [hn]
    exact h.named
  · simp only [Idle, hn, hp]
    exact h.apart
  · rw [hp]
    exact h.pooled
  · rw [hp]
    exact h.nodup
  · rw [hn]
    intro n id hname
    obtain ⟨b, hb⟩ := h.there n id hname
    exact hthere id b hb
  · rw [hp]
    intro p P id hpool hid
    rw [hidle id ⟨p, P, hpool, hid⟩]
    exact h.ready p P id hpool hid

theorem of_eq (h : w.Owned) (hn : w'.builderNames = w.builderNames)
    (hp : w'.poolNames = w.poolNames) (hb : ∀ id, w'.builderAt? id = w.builderAt? id) :
    w'.Owned :=
  h.frame hn hp (fun id b hat => ⟨b, (hb id).trans hat⟩) fun id _ => hb id

/-- A builder that is not idle may be changed. -/
theorem setBuilder (h : w.Owned) (hid : ¬ w.Idle id) (b : Builder) : (w.setBuilder id b).Owned := by
  refine h.frame rfl rfl (fun id' b' hb' => ?_) fun id' hidle => ?_
  · rw [builderAt?_setBuilder]
    split
    · next he => rw [← he, hb']; exact ⟨b, rfl⟩
    · exact ⟨b', hb'⟩
  · rw [builderAt?_setBuilder, if_neg]
    intro he
    exact hid (he ▸ hidle)

theorem disposeBuilder (h : w.Owned) (hid : ¬ w.Idle id) : (w.disposeBuilder id).Owned := by
  cases hb : w.builderAt? id with
  | none => simpa only [Workspace.disposeBuilder, hb] using h
  | some b =>
      have hset := h.setBuilder hid (b.dispose (w.isShared id))
      have hat := builderAt?_disposeBuilder hb
      obtain ⟨tenants, he⟩ := disposeBuilder_eq w id
      rw [he] at hat ⊢
      exact hset.of_eq rfl rfl hat

/-- An unowned builder gets a name; the builder that had it is unowned now. -/
theorem set_name (h : w.Owned) (hid : w.Unowned id) {b : Builder} (hb : w.builderAt? id = some b) :
    Owned { w with builderNames := w.builderNames.set name id } := by
  have hget (n : String) (id' : BuilderId) :
      (w.builderNames.set name id).get? n = some id' ↔
        if name = n then id = id' else w.builderNames.get? n = some id' := by
    rw [Table.get?_set]
    split <;> simp
  refine ⟨?_, ?_, h.pooled, h.nodup, ?_, h.ready⟩
  · intro n m id' hn hm
    rw [hget] at hn hm
    split at hn
    · split at hm
      · next h₁ h₂ => rw [← h₁, ← h₂]
      · exact absurd (hn ▸ hm) (hid.unnamed m)
    · split at hm
      · exact absurd (hm ▸ hn) (hid.unnamed n)
      · exact h.named n m id' hn hm
  · intro n id' hn
    rw [hget] at hn
    split at hn
    · exact hn ▸ hid.busy
    · exact h.apart n id' hn
  · intro n id' hn
    rw [hget] at hn
    split at hn
    · exact ⟨b, hn ▸ hb⟩
    · exact h.there n id' hn

theorem nameBuilder (h : w.Owned) (hid : w.Unowned id) {b : Builder}
    (hb : w.builderAt? id = some b) (name : String) : (w.nameBuilder name id).Owned := by
  have hset : Owned { w with builderNames := w.builderNames.set name id } := h.set_name hid hb
  unfold Workspace.nameBuilder
  split
  · next old hold => exact hset.disposeBuilder (h.apart name old hold)
  · exact hset

theorem unnameBuilder (h : w.Owned) (name : String) : (w.unnameBuilder name).Owned :=
  ⟨fun n m id hn hm => h.named n m id (Table.get?_of_erase hn) (Table.get?_of_erase hm),
    fun n id hn => h.apart n id (Table.get?_of_erase hn), h.pooled, h.nodup,
    fun n id hn => h.there n id (Table.get?_of_erase hn), h.ready⟩

theorem unowned_of_unnamed (h : w.Owned) (hname : w.builderNames.get? name = some id) :
    (w.unnameBuilder name).Unowned id := by
  refine ⟨fun n hn => ?_, h.apart name id hname⟩
  rw [Workspace.unnameBuilder, Table.get?_erase] at hn
  split at hn
  · cases hn
  · next hne => exact hne (h.named name n id hname hn)

/-- A pool is changed: what waits in it then has waited in it before, or was unowned. -/
theorem setPool (h : w.Owned) {P : Pool BuilderId} (hnodup : P.idle.Nodup)
    (hidle : ∀ id ∈ P.idle, (w.Unowned id ∨
        ∃ Q, w.poolNames.get? name = some Q ∧ id ∈ Q.idle) ∧
      ∃ b, w.builderAt? id = some b ∧ b.Ready P.options) : (w.setPool name P).Owned := by
  have hget (q : String) (Q : Pool BuilderId) : (w.setPool name P).poolNames.get? q = some Q ↔
      if name = q then P = Q else w.poolNames.get? q = some Q := by
    rw [get?_setPool]
    split <;> simp
  -- A builder of the changed pool waits nowhere else.
  have hother (q : String) (Q : Pool BuilderId) (id : BuilderId) (hne : name ≠ q)
      (hq : w.poolNames.get? q = some Q) (hid : id ∈ P.idle) : id ∉ Q.idle := by
    intro hmem
    rcases (hidle id hid).1 with hu | ⟨P', hP', hold⟩
    · exact hu.busy ⟨q, Q, hq, hmem⟩
    · exact hne (h.pooled name q P' Q id hP' hq hold hmem)
  refine ⟨h.named, ?_, ?_, ?_, h.there, ?_⟩
  · rintro n id hn ⟨q, Q, hq, hid⟩
    rw [hget] at hq
    split at hq
    · subst hq
      rcases (hidle id hid).1 with hu | ⟨P', hP', hold⟩
      · exact hu.unnamed n hn
      · exact h.apart n id hn ⟨name, P', hP', hold⟩
    · exact h.apart n id hn ⟨q, Q, hq, hid⟩
  · intro p q P₁ P₂ id hp hq h₁ h₂
    rw [hget] at hp hq
    split at hp
    · next hpn =>
        subst hp
        split at hq
        · next hqn => rw [← hpn, ← hqn]
        · next hqn => exact absurd h₂ (hother q P₂ id hqn hq h₁)
    · next hpn =>
        split at hq
        · subst hq
          exact absurd h₁ (hother p P₁ id hpn hp h₂)
        · exact h.pooled p q P₁ P₂ id hp hq h₁ h₂
  · intro q Q hq
    rw [hget] at hq
    split at hq
    · exact hq ▸ hnodup
    · exact h.nodup q Q hq
  · intro q Q id hq hid
    rw [hget] at hq
    split at hq
    · subst hq
      exact (hidle id hid).2
    · exact h.ready q Q id hq hid

theorem addBuilder (h : w.Owned) (b : Builder) :
    (w.addBuilder b).2.Owned ∧ (w.addBuilder b).2.Unowned (w.addBuilder b).1 ∧
      (w.addBuilder b).2.builderAt? (w.addBuilder b).1 = some b := by
  have hnone : w.builderAt? ⟨w.tenants.size⟩ = none := by simp [builderAt?]
  have hat (id : BuilderId) : (w.addBuilder b).2.builderAt? id =
      if id.index = w.tenants.size then some b else w.builderAt? id := by
    simp only [Workspace.addBuilder, builderAt?, Array.getElem?_push]
    split <;> rfl
  have hold (id : BuilderId) (b' : Builder) (hb' : w.builderAt? id = some b') :
      (w.addBuilder b).2.builderAt? id = some b' := by
    rw [hat, if_neg, hb']
    intro he
    have hid : id = ⟨w.tenants.size⟩ := by cases id; exact congrArg BuilderId.mk he
    rw [hid, hnone] at hb'
    cases hb'
  refine ⟨h.frame rfl rfl (fun id b' hb' => ⟨b', hold id b' hb'⟩) ?_, ⟨?_, ?_⟩, ?_⟩
  · rintro id ⟨p, P, hp, hid⟩
    obtain ⟨b', hb', -⟩ := h.ready p P id hp hid
    rw [hold id b' hb', hb']
  · intro n hn
    obtain ⟨b', hb'⟩ := h.there n _ hn
    rw [show (w.addBuilder b).1 = ⟨w.tenants.size⟩ from rfl, hnone] at hb'
    cases hb'
  · rintro ⟨p, P, hp, hid⟩
    obtain ⟨b', hb', -⟩ := h.ready p P _ hp hid
    rw [show (w.addBuilder b).1 = ⟨w.tenants.size⟩ from rfl, hnone] at hb'
    cases hb'
  · rw [hat]
    exact if_pos rfl

theorem takeFrom (h : w.Owned) {pool : Pool BuilderId} (hp : w.poolNames.get? name = some pool) :
    (w.takeFrom name pool).2.Owned ∧
      (w.takeFrom name pool).2.Unowned (w.takeFrom name pool).1 ∧
      ∃ b, (w.takeFrom name pool).2.builderAt? (w.takeFrom name pool).1 = some b ∧
        b.Ready pool.options := by
  unfold Workspace.takeFrom Pool.take
  cases hidle : pool.idle with
  | nil =>
      obtain ⟨howned, hunowned, hb⟩ := h.addBuilder (.new pool.options.builder)
      exact ⟨howned, hunowned, _, hb, Builder.ready_new pool.options⟩
  | cons id rest =>
      have hnodup := h.nodup name pool hp
      rw [hidle, List.nodup_cons] at hnodup
      have hmem : id ∈ pool.idle := by
        rw [hidle]
        exact List.mem_cons_self
      have hrest : ∀ id' ∈ rest, id' ∈ pool.idle := by
        rw [hidle]
        exact fun id' h' => List.mem_cons_of_mem id h'
      have hset : (w.setPool name { pool with idle := rest }).Owned := h.setPool hnodup.2
        fun id' h' => ⟨.inr ⟨pool, hp, hrest id' h'⟩, h.ready name pool id' hp (hrest id' h')⟩
      refine ⟨hset, ⟨fun n hn => h.apart n id hn ⟨name, pool, hp, hmem⟩, ?_⟩,
        h.ready name pool id hp hmem⟩
      -- It waited in this pool only, and once.
      rintro ⟨q, Q, hq, hid⟩
      dsimp only at hq hid
      rw [get?_setPool] at hq
      split at hq
      · cases hq
        exact hnodup.1 hid
      · next hne => exact hne (h.pooled name q pool Q id hp hq hmem hid)

theorem giveBackTo (h : w.Owned) {P : Pool BuilderId} (hp : w.poolNames.get? name = some P)
    (hid : w.Unowned id) : (w.giveBackTo name P id).Owned := by
  unfold Workspace.giveBackTo
  split
  · exact h
  · next b hb =>
      split
      · exact h
      · exact h.disposeBuilder hid.busy
      · exact (h.setBuilder hid.busy b.clear).disposeBuilder hid.busy
      · next hkept =>
          have hclear := h.setBuilder hid.busy b.clear
          have hnodup : (P.put id).idle.Nodup := by
            refine List.nodup_append.mpr ⟨h.nodup name P hp, by simp, ?_⟩
            intro a ha c hc hac
            rw [List.mem_singleton.mp hc] at hac
            exact hid.busy ⟨name, P, hp, hac ▸ ha⟩
          refine hclear.setPool hnodup fun id' hmem => ?_
          rcases List.mem_append.mp hmem with hold | hnew
          · exact ⟨.inr ⟨P, hp, hold⟩, hclear.ready name P id' hp hold⟩
          · rw [List.mem_singleton.mp hnew]
            have hready : b.clear.Ready P.options := Builder.ready_clear hkept
            refine ⟨.inl ⟨hid.unnamed, hid.busy⟩, b.clear, ?_, hready⟩
            rw [builderAt?_setBuilder, if_pos rfl, hb]
            rfl

theorem disposeBuilders (ids : List BuilderId) : ∀ {w : Workspace}, w.Owned →
    (∀ id ∈ ids, ¬ w.Idle id) → (ids.foldl (fun w id => w.disposeBuilder id) w).Owned := by
  induction ids with
  | nil => intro w h _; exact h
  | cons id ids ih =>
      intro w h hids
      refine ih (h.disposeBuilder (hids id List.mem_cons_self)) fun id' h' => ?_
      rw [Idle, poolNames_disposeBuilder]
      exact hids id' (List.mem_cons_of_mem id h')

end Owned

/-! ## §4. One step. -/

theorem pool_eq_ok {p : String} {pool : Pool BuilderId} (h : w.pool p = .ok pool) :
    w.poolNames.get? p = some pool := by
  unfold Workspace.pool at h
  split at h
  · next hp => cases h; exact hp
  · cases h

/-- An edit changes builders and snapshots only. -/
theorem edit_cases {id : BuilderId} {t : Tenant} {e : Edit} {r : Reply}
    (h : w.edit id t e = .ok (r, w')) :
    ∃ tenants snapshots, w' = { w with tenants := tenants, snapshots := snapshots } := by
  cases e with
  | snapshot name =>
      obtain ⟨v, -, h⟩ := ok_of_bind h
      dsimp only at h
      split at h <;> cases h <;> exact ⟨_, _, rfl⟩
  | builder other =>
      obtain ⟨_, _, h⟩ := ok_of_bind h
      cases h
      exact ⟨_, _, rfl⟩
  | dispose =>
      cases h
      unfold disposeBuilder
      split
      · exact ⟨_, _, rfl⟩
      · split <;> exact ⟨_, _, rfl⟩
  | get i => simp only [edit] at h; split at h <;> cases h; exact ⟨_, _, rfl⟩
  | set i u => simp only [edit] at h; split at h <;> cases h; exact ⟨_, _, rfl⟩
  | _ => cases h; exact ⟨_, _, rfl⟩

/-- What a step may add to the idle builders of `w`: those that it cleared. -/
def Retires (w w' : Workspace) : Prop :=
  ∀ id, w'.Idle id → w.Idle id ∨
    ∃ b, w'.builderAt? id = some b ∧ b.version = (w.see id).version + 1

theorem Retires.of_eq (h : w'.poolNames = w.poolNames) : Retires w w' := by
  intro id hid
  rw [Idle, h] at hid
  exact .inl hid

/-- A pool loses builders. -/
theorem idle_setPool {p : String} {P Q : Pool BuilderId} (hp : w.poolNames.get? p = some Q)
    (hsub : ∀ id ∈ P.idle, id ∈ Q.idle) {id : BuilderId} (h : (w.setPool p P).Idle id) :
    w.Idle id := by
  obtain ⟨q, R, hq, hid⟩ := h
  rw [get?_setPool] at hq
  split at hq
  · cases hq
    exact ⟨p, Q, hp, hsub id hid⟩
  · exact ⟨q, R, hq, hid⟩

theorem idle_takeFrom {p : String} {pool : Pool BuilderId} (hp : w.poolNames.get? p = some pool)
    {id : BuilderId} (h : (w.takeFrom p pool).2.Idle id) : w.Idle id := by
  unfold takeFrom Pool.take at h
  cases hidle : pool.idle with
  | nil => rw [hidle] at h; exact h
  | cons id' rest =>
      rw [hidle] at h
      refine idle_setPool hp (fun id₁ h₁ => ?_) h
      rw [hidle]
      exact List.mem_cons_of_mem id' h₁

theorem idle_giveBackTo {p : String} {pool : Pool BuilderId} {id id' : BuilderId}
    (hp : w.poolNames.get? p = some pool) (h : (w.giveBackTo p pool id).Idle id') :
    w.Idle id' ∨ id' = id ∧ ∃ b, w.builderAt? id = some b ∧
      (w.giveBackTo p pool id).builderAt? id = some b.clear := by
  cases hb : w.builderAt? id with
  | none =>
      simp only [giveBackTo, hb] at h
      exact .inl h
  | some b =>
      simp only [giveBackTo, hb] at h ⊢
      cases hf : pool.fate b with
      | forgotten => rw [hf] at h; exact .inl h
      | unsuitable =>
          rw [hf] at h
          simp only [Idle, poolNames_disposeBuilder] at h
          exact .inl h
      | crowded =>
          rw [hf] at h
          simp only [Idle, poolNames_disposeBuilder] at h
          exact .inl h
      | kept =>
          rw [hf] at h
          obtain ⟨q, Q, hq, hid⟩ := h
          dsimp only at hq ⊢
          rw [get?_setPool] at hq
          split at hq
          · cases hq
            rcases List.mem_append.mp hid with hold | hnew
            · exact .inl ⟨p, pool, hp, hold⟩
            · refine .inr ⟨List.mem_singleton.mp hnew, b, rfl, ?_⟩
              show (w.setBuilder id b.clear).builderAt? id = _
              rw [builderAt?_setBuilder, if_pos rfl, hb]
              rfl
          · exact .inl ⟨q, Q, hq, hid⟩

theorem owned_addNamed (h : w.Owned) (name : String) (b : Builder) :
    (w.addNamed name b).2.Owned ∧ (w.addNamed name b).2.poolNames = w.poolNames := by
  obtain ⟨howned, hunowned, hb⟩ := h.addBuilder b
  exact ⟨howned.nameBuilder hunowned hb name, poolNames_nameBuilder _ name _⟩

theorem owned_rent (h : w.Owned) (hw : w.Consistent) {p t : String} {keep : Option String}
    {r : Reply} (hs : w.step (.rent p t keep) = .ok (r, w')) : w'.Owned ∧ Retires w w' := by
  obtain ⟨pool, pool₁, b, hpool, hpool₁, hb, -, rfl⟩ := rent_eq_ok hs
  have hp := pool_eq_ok hpool
  have hp₁ := pool_eq_ok hpool₁
  obtain ⟨howned, hunowned, -⟩ := h.takeFrom hp
  have hset := howned.setBuilder hunowned.busy (b.appendText t).2
  -- The builder, as it is when it gets its next owner.
  generalize hw₁ : (w.takeFrom p pool).2.setBuilder (w.takeFrom p pool).1 (b.appendText t).2 = w₁
    at hset
  have hat : w₁.builderAt? (w.takeFrom p pool).1 = some (b.appendText t).2 := by
    rw [← hw₁, builderAt?_setBuilder, if_pos rfl, hb]
    rfl
  have hfree : w₁.Unowned (w.takeFrom p pool).1 := by
    subst hw₁
    exact ⟨hunowned.unnamed, hunowned.busy⟩
  have hold (id : BuilderId) (hid : w₁.Idle id) : w.Idle id := by
    subst hw₁
    exact idle_takeFrom hp hid
  have hpool' : w₁.poolNames.get? p = some pool₁ := by
    subst hw₁
    exact hp₁
  cases keep with
  | some name =>
      refine ⟨hset.nameBuilder hfree hat name, fun id hid => .inl (hold id ?_)⟩
      rw [afterRent, Idle, poolNames_nameBuilder] at hid
      exact hid
  | none =>
      refine ⟨hset.giveBackTo hpool' hfree, fun id hid => ?_⟩
      rw [afterRent] at hid ⊢
      rcases idle_giveBackTo hpool' hid with hidle | ⟨rfl, b', hb', hclear⟩
      · exact .inl (hold id hidle)
      · -- It is returned with the version after the one that it was rented with.
        rw [hat] at hb'
        cases hb'
        refine .inr ⟨_, hclear, ?_⟩
        have hv : b.version = (w.see (w.takeFrom p pool).1).version := by
          rcases joins_takeFrom w p pool (w.takeFrom p pool).1 with he | ⟨hnone, r, policy, -, he⟩
          · rw [hb] at he
            rw [see_of_builderAt? he.symm, (hw _ b he.symm).version]
          · rw [hb] at he
            cases he
            rw [see, hnone]
            rfl
        show (b.appendText t).2.version + 1 = _
        rw [(b.grown_appendText t).keeps.version, hv]

/-- **A step keeps the owners apart**, and the builders that it puts into a pool are
cleared. -/
theorem owned_step {s : Step} {r : Reply} (h : w.Owned) (hw : w.Consistent)
    (hs : w.step s = .ok (r, w')) : w'.Owned ∧ Retires w w' := by
  have hsame {w' : Workspace} (hn : w'.builderNames = w.builderNames)
      (hp : w'.poolNames = w.poolNames) (hb : ∀ id, w'.builderAt? id = w.builderAt? id) :
      w'.Owned ∧ Retires w w' := ⟨h.of_eq hn hp hb, .of_eq hp⟩
  have hadded (name : String) (b : Builder) :
      (w.addNamed name b).2.Owned ∧ Retires w (w.addNamed name b).2 := by
    obtain ⟨howned, hp⟩ := owned_addNamed h name b
    exact ⟨howned, .of_eq hp⟩
  cases s with
  | newBuilder b o => cases hs; exact hadded b _
  | borrow b memory policy =>
      cases hs
      obtain ⟨howned, hretires⟩ := hadded b (.borrowing memory policy)
      exact ⟨howned.of_eq rfl rfl fun _ => rfl, hretires⟩
  | dropBuilder b =>
      obtain ⟨id, hid, hs⟩ := ok_of_bind hs
      cases hs
      have hunowned := h.unowned_of_unnamed (builderId_eq_ok hid)
      exact ⟨(h.unnameBuilder b).disposeBuilder hunowned.busy,
        .of_eq (poolNames_disposeBuilder _ id)⟩
  | edit name e =>
      obtain ⟨v, hname, hv, hedit⟩ := edit_eq_ok hs
      obtain ⟨tenants, snapshots, rfl⟩ := edit_cases hedit
      -- An edited builder has a name, so it is not idle.
      have hbusy := h.apart name v.1 (builderId_eq_ok hname)
      have hset := h.setBuilder hbusy (w.edited v.1 v.2.builder e)
      exact ⟨hset.of_eq rfl rfl (builderAt?_edited hv hedit), .of_eq rfl⟩
  | snap b keep =>
      obtain ⟨v, -, hs⟩ := ok_of_bind hs
      cases hs
      obtain ⟨tenants, snapshots, he⟩ := takeSnapshot_eq w v.1 v.2
      have hn : (w.takeSnapshot v.1 v.2).2.builderNames = w.builderNames := by rw [he]
      have hp : (w.takeSnapshot v.1 v.2).2.poolNames = w.poolNames := by rw [he]
      exact hsame hn hp fun id => builderAt?_takeSnapshot w v.1 id v.2
  | ofUnits s us => cases hs; exact hsame rfl rfl fun _ => rfl
  | ofText s t => cases hs; exact hsame rfl rfl fun _ => rfl
  | ofSegment s us start length =>
      simp only [step] at hs
      split at hs <;> cases hs
      exact hsame rfl rfl fun _ => rfl
  | clone s source =>
      obtain ⟨_, _, hs⟩ := ok_of_bind hs
      cases hs
      exact hsame rfl rfl fun _ => rfl
  | dropSnapshot s =>
      obtain ⟨_, _, hs⟩ := ok_of_bind hs
      cases hs
      exact hsame rfl rfl fun _ => rfl
  | look s l =>
      obtain ⟨v, _, hs⟩ := ok_of_bind hs
      obtain ⟨snapshots, he⟩ := look_eq w v.1 v.2 l
      rw [Except.ok.inj hs] at he
      subst he
      exact hsame rfl rfl fun _ => rfl
  | newPool p o =>
      cases hs
      have hset : (w.setPool p (.new o)).Owned := h.setPool List.nodup_nil (by
        intro id hid
        cases hid)
      refine ⟨hset.disposeBuilders _ fun id hid => ?_, fun id hid => ?_⟩
      · -- What waited in the pool that had the name waits in no other one.
        rintro ⟨q, Q, hq, hmem⟩
        rw [get?_setPool] at hq
        split at hq
        · cases hq
          cases hmem
        · next hne =>
            split at hid
            · next old hold => exact hne (h.pooled p q old Q id hold hq hid hmem)
            · cases hid
      · obtain ⟨q, Q, hq, hmem⟩ := hid
        rw [poolNames_disposeBuilders, get?_setPool] at hq
        split at hq
        · cases hq
          cases hmem
        · exact .inl ⟨q, Q, hq, hmem⟩
  | take p b =>
      obtain ⟨pool, hpool, hs⟩ := ok_of_bind hs
      cases hs
      have hp := pool_eq_ok hpool
      obtain ⟨howned, hunowned, b', hb', -⟩ := h.takeFrom hp
      refine ⟨howned.nameBuilder hunowned hb' b, fun id hid => .inl (idle_takeFrom hp ?_)⟩
      rw [Idle, poolNames_nameBuilder] at hid
      exact hid
  | giveBack p b =>
      obtain ⟨pool, hpool, hs⟩ := ok_of_bind hs
      obtain ⟨id, hid, hs⟩ := ok_of_bind hs
      cases hs
      have hp := pool_eq_ok hpool
      have hunowned := h.unowned_of_unnamed (builderId_eq_ok hid)
      refine ⟨(h.unnameBuilder b).giveBackTo hp hunowned, fun id' hid' => ?_⟩
      rcases idle_giveBackTo (w := w.unnameBuilder b) hp hid' with hold | ⟨rfl, b', hb', hclear⟩
      · exact .inl hold
      · refine .inr ⟨_, hclear, ?_⟩
        have hat : w.builderAt? id' = some b' := hb'
        rw [see_of_builderAt? hat, (hw id' b' hat).version]
        rfl
  | rent p t keep => exact owned_rent h hw hs
  | allocate g capacity => cases hs; exact hsame rfl rfl fun _ => rfl
  | adopt g memory => cases hs; exact hsame rfl rfl fun _ => rfl
  | access g a =>
      obtain ⟨_, _, hs⟩ := ok_of_bind hs
      obtain ⟨_, rfl⟩ := access_cases hs
      exact hsame rfl rfl fun _ => rfl

/-! ## §5. Sessions. -/

theorem Owned.after (h : w.Owned) (hw : w.Consistent) (s : Step) :
    (w.after s).Owned ∧ Retires w (w.after s) := by
  cases hs : w.step s with
  | error e =>
      rw [Workspace.after, hs]
      exact ⟨h, .of_eq rfl⟩
  | ok o =>
      rw [after_of_step hs]
      exact owned_step h hw hs

theorem Owned.run (h : w.Owned) (hw : w.Consistent) (steps : List Step) : (w.run steps).Owned := by
  induction steps generalizing w with
  | nil => exact h
  | cons s rest ih => exact ih (h.after hw s).1 (hw.after s)

/-- **In every session a builder has one owner at most, and the idle ones are ready.** -/
theorem owned_run (steps : List Step) : (run {} steps).Owned := by
  refine Owned.run ⟨?_, ?_, ?_, ?_, ?_, ?_⟩ (consistent_run []) steps
  · intro n m id hn
    cases hn
  · intro n id hn
    cases hn
  · intro p q P Q id hp
    cases hp
  · intro p P hp
    cases hp
  · intro n id hn
    cases hn
  · intro p P id hp
    cases hp

/-- **A builder that a step puts into a pool is cleared by it.** -/
theorem idle_after (steps : List Step) (s : Step) : Retires (run {} steps) (run {} (steps ++ [s])) := by
  rw [run_snoc]
  exact ((owned_run steps).after (consistent_run steps) s).2

/-- An idle builder publishes no content. -/
theorem Owned.length_of_idle (h : w.Owned) (hw : w.Consistent) {id : BuilderId} (hid : w.Idle id) :
    (w.see id).length = 0 := by
  obtain ⟨p, P, hp, hmem⟩ := hid
  obtain ⟨b, hb, hready⟩ := h.ready p P id hp hmem
  rw [see_of_builderAt? hb, (hw id b hb).length, hready.length]

end Workspace

end ValueText
