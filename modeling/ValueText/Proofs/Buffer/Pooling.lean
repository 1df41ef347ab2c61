/-
  ValueText.Proofs.Buffer.Pooling — what pools hand out and take back.

  A step gives or takes one name at most, and uses one pool at most; everything else keeps
  its owner.  A pool hands out the builder that waits longest, or makes one, and it takes a
  builder back if it accepts it; any other builder is disposed.

  Main results:

    • `spares_step`      a step leaves the other names and the other pools alone;
    • `Capped.step`      no pool comes to hold more builders than it may;
    • `step_take_ok`     what a pool hands out;
    • `step_giveBack_ok`  what becomes of a builder that is returned to a pool.
-/
import ValueText.Buffer.Lending
import ValueText.Proofs.Buffer.Disposal
import ValueText.Proofs.Buffer.Reuse

namespace ValueText

/-! ## §1. What a pool accepts. -/

namespace Pool

variable {β : Type} {P : Pool β} {b : Builder}

/-- The builder is alive and as the pool would make it, and there is room for it. -/
structure Accepts (P : Pool β) (b : Builder) : Prop where
  alive : b.disposed = false
  capacity : b.capacity = P.options.builder.capacity
  policy : b.policy = P.options.builder.policy
  room : P.size < P.options.limit

theorem fate_eq_kept_iff : P.fate b = .kept ↔ P.Accepts b := by
  have hsuits : P.suits b = true ↔ b.capacity = P.options.builder.capacity ∧
      b.policy = P.options.builder.policy := by simp [suits]
  have hroom : P.hasRoom = true ↔ P.size < P.options.limit := by simp [hasRoom, size]
  unfold fate
  constructor
  · intro h
    split at h
    · cases h
    · next hd =>
        split at h
        · next hs =>
            split at h
            · next hr =>
                obtain ⟨hcapacity, hpolicy⟩ := hsuits.mp hs
                exact ⟨Bool.eq_false_iff.mpr hd, hcapacity, hpolicy, hroom.mp hr⟩
            · cases h
        · cases h
  · intro h
    rw [if_neg (by rw [h.alive]; decide), if_pos (hsuits.mpr ⟨h.capacity, h.policy⟩),
      if_pos (hroom.mpr h.room)]

end Pool

namespace Workspace

variable {w w₁ w' : Workspace} {id : BuilderId} {p name : String} {P : Pool BuilderId} {s : Step}
  {r : Reply} {b : Builder} {b? p? : Option String}

/-! ## §2. What a step leaves alone. -/

/-- Names other than `b?` keep their builders, and pools other than `p?` stay as they are.
No pool goes away. -/
structure Spares (b? p? : Option String) (w w' : Workspace) : Prop where
  names : ∀ n, b? ≠ some n → w'.builderNames.get? n = w.builderNames.get? n
  pools : ∀ q, p? ≠ some q → w'.poolNames.get? q = w.poolNames.get? q
  lasting : ∀ q, (w.poolNames.get? q).isSome → (w'.poolNames.get? q).isSome

theorem Spares.of_eq (hn : w'.builderNames = w.builderNames) (hp : w'.poolNames = w.poolNames) :
    Spares b? p? w w' :=
  ⟨fun n _ => by rw [hn], fun q _ => by rw [hp], fun q hq => by rwa [hp]⟩

theorem Spares.trans (h : Spares b? p? w w₁) (h' : Spares b? p? w₁ w') : Spares b? p? w w' :=
  ⟨fun n hn => (h'.names n hn).trans (h.names n hn),
    fun q hq => (h'.pools q hq).trans (h.pools q hq), fun q hq => h'.lasting q (h.lasting q hq)⟩

theorem spares_disposeBuilder (w : Workspace) (id : BuilderId) :
    Spares b? p? w (w.disposeBuilder id) := by
  obtain ⟨tenants, he⟩ := disposeBuilder_eq w id
  rw [he]
  exact .of_eq rfl rfl

theorem spares_disposeBuilders (w : Workspace) (ids : List BuilderId) :
    Spares b? p? w (ids.foldl (fun w id => w.disposeBuilder id) w) := by
  obtain ⟨tenants, he⟩ := disposeBuilders_eq ids w
  rw [he]
  exact .of_eq rfl rfl

theorem spares_nameBuilder (w : Workspace) (name : String) (id : BuilderId) :
    Spares (some name) p? w (w.nameBuilder name id) := by
  obtain ⟨tenants, he⟩ := nameBuilder_eq w name id
  rw [he]
  exact ⟨fun _ hn => (Table.get?_set ..).trans (if_neg fun hne => hn (congrArg some hne)),
    fun _ _ => rfl, fun _ hq => hq⟩

theorem spares_unnameBuilder (w : Workspace) (name : String) :
    Spares (some name) p? w (w.unnameBuilder name) :=
  ⟨fun _ hn => (Table.get?_erase ..).trans (if_neg fun hne => hn (congrArg some hne)),
    fun _ _ => rfl, fun _ hq => hq⟩

theorem spares_setPool (w : Workspace) (p : String) (P : Pool BuilderId) :
    Spares b? (some p) w (w.setPool p P) := by
  refine ⟨fun _ _ => rfl, fun q hq => ?_, fun q hq => ?_⟩
  · rw [get?_setPool, if_neg fun hne => hq (congrArg some hne)]
  · rw [get?_setPool]
    split
    · rfl
    · exact hq

theorem spares_addNamed (w : Workspace) (name : String) (b : Builder) :
    Spares (some name) p? w (w.addNamed name b).2 := by
  have hadded : Spares (some name) p? w (w.addBuilder b).2 := .of_eq rfl rfl
  exact hadded.trans (spares_nameBuilder _ name _)

theorem spares_takeFrom (w : Workspace) (p : String) (P : Pool BuilderId) :
    Spares b? (some p) w (w.takeFrom p P).2 := by
  unfold takeFrom
  split
  · exact spares_setPool w p _
  · exact .of_eq rfl rfl

theorem spares_giveBackTo (w : Workspace) (p : String) (P : Pool BuilderId) (id : BuilderId) :
    Spares b? (some p) w (w.giveBackTo p P id) := by
  have hset (b : Builder) : Spares b? (some p) w (w.setBuilder id b) := .of_eq rfl rfl
  unfold giveBackTo
  split
  · exact .of_eq rfl rfl
  · next b _ =>
      split
      · exact .of_eq rfl rfl
      · exact spares_disposeBuilder w id
      · exact (hset b.clear).trans (spares_disposeBuilder _ id)
      · exact (hset b.clear).trans (spares_setPool _ p _)

/-- **A step gives or takes one name at most, and uses one pool at most.** -/
theorem spares_step (hs : w.step s = .ok (r, w')) : Spares s.renames? s.serves? w w' := by
  cases s with
  | newBuilder b o => cases hs; exact spares_addNamed w b _
  | borrow b memory policy => cases hs; exact (spares_addNamed w b _).trans (.of_eq rfl rfl)
  | dropBuilder b =>
      obtain ⟨id, -, hs⟩ := ok_of_bind hs
      cases hs
      exact (spares_unnameBuilder w b).trans (spares_disposeBuilder _ id)
  | edit name e =>
      obtain ⟨v, -, -, hedit⟩ := edit_eq_ok hs
      obtain ⟨tenants, snapshots, rfl⟩ := edit_cases hedit
      exact .of_eq rfl rfl
  | snap b keep =>
      obtain ⟨v, -, hs⟩ := ok_of_bind hs
      cases hs
      obtain ⟨tenants, snapshots, he⟩ := takeSnapshot_eq w v.1 v.2
      have htaken : Spares none none w (w.takeSnapshot v.1 v.2).2 := by
        rw [he]
        exact .of_eq rfl rfl
      exact htaken.trans (.of_eq rfl rfl)
  | ofUnits s us => cases hs; exact .of_eq rfl rfl
  | ofText s t => cases hs; exact .of_eq rfl rfl
  | ofSegment s us start length =>
      simp only [step] at hs
      split at hs <;> cases hs
      exact .of_eq rfl rfl
  | clone s source =>
      obtain ⟨_, _, hs⟩ := ok_of_bind hs
      cases hs
      exact .of_eq rfl rfl
  | dropSnapshot s =>
      obtain ⟨_, _, hs⟩ := ok_of_bind hs
      cases hs
      exact .of_eq rfl rfl
  | look s l =>
      obtain ⟨v, _, hs⟩ := ok_of_bind hs
      obtain ⟨snapshots, he⟩ := look_eq w v.1 v.2 l
      rw [Except.ok.inj hs] at he
      subst he
      exact .of_eq rfl rfl
  | newPool p o => cases hs; exact (spares_setPool w p _).trans (spares_disposeBuilders _ _)
  | take p b =>
      obtain ⟨pool, -, hs⟩ := ok_of_bind hs
      cases hs
      exact (spares_takeFrom w p pool).trans (spares_nameBuilder _ b _)
  | giveBack p b =>
      obtain ⟨pool, -, hs⟩ := ok_of_bind hs
      obtain ⟨id, -, hs⟩ := ok_of_bind hs
      cases hs
      exact (spares_unnameBuilder w b).trans (spares_giveBackTo _ p pool id)
  | rent p t keep =>
      obtain ⟨pool, pool₁, b, -, -, -, -, rfl⟩ := rent_eq_ok hs
      have hset : Spares keep (some p) w ((w.takeFrom p pool).2.setBuilder (w.takeFrom p pool).1
          (b.appendText t).2) := (spares_takeFrom w p pool).trans (.of_eq rfl rfl)
      cases keep with
      | some name => exact hset.trans (spares_nameBuilder _ name _)
      | none => exact hset.trans (spares_giveBackTo _ p pool₁ _)
  | allocate g capacity => cases hs; exact .of_eq rfl rfl
  | adopt g memory => cases hs; exact .of_eq rfl rfl
  | access g a =>
      obtain ⟨_, _, hs⟩ := ok_of_bind hs
      obtain ⟨_, rfl⟩ := access_cases hs
      exact .of_eq rfl rfl

/-! ## §3. The size of pools. -/

/-- No pool holds more builders than it may. -/
def Capped (w : Workspace) : Prop :=
  ∀ p P, w.poolNames.get? p = some P → P.size ≤ P.options.limit

namespace Capped

theorem of_eq (h : w.Capped) (hp : w'.poolNames = w.poolNames) : w'.Capped :=
  fun q Q hq => h q Q (hp ▸ hq)

theorem setPool (h : w.Capped) (hP : P.size ≤ P.options.limit) : (w.setPool p P).Capped := by
  intro q Q hq
  rw [get?_setPool] at hq
  split at hq
  · exact Option.some.inj hq ▸ hP
  · exact h q Q hq

theorem takeFrom (h : w.Capped) (hp : w.poolNames.get? p = some P) :
    (w.takeFrom p P).2.Capped := by
  have hsize := h p P hp
  unfold Workspace.takeFrom Pool.take
  cases hidle : P.idle with
  | nil => exact h
  | cons id rest =>
      refine h.setPool ?_
      rw [Pool.size, hidle, List.length_cons] at hsize
      exact Nat.le_of_succ_le hsize

theorem giveBackTo (h : w.Capped) (p : String) (P : Pool BuilderId) (id : BuilderId) :
    (w.giveBackTo p P id).Capped := by
  have hset (b : Builder) : (w.setBuilder id b).Capped := h
  unfold Workspace.giveBackTo
  split
  · exact h
  · next b _ =>
      split
      · exact h
      · exact h.of_eq (poolNames_disposeBuilder w id)
      · exact (hset b.clear).of_eq (poolNames_disposeBuilder _ id)
      · next hkept =>
          refine (hset b.clear).setPool ?_
          have hroom := (Pool.fate_eq_kept_iff.mp hkept).room
          rw [Pool.size, Pool.put, List.length_append]
          exact hroom

/-- **A step does not overfill a pool.** -/
theorem step (h : w.Capped) (hs : w.step s = .ok (r, w')) : w'.Capped := by
  cases hserves : s.serves? with
  | none =>
      intro q Q hq
      rw [(spares_step hs).pools q (by rw [hserves]; nofun)] at hq
      exact h q Q hq
  | some p =>
      cases s with
      | newPool p o =>
          cases hs
          exact (h.setPool (P := .new o) (Nat.zero_le o.limit)).of_eq (poolNames_disposeBuilders _ _)
      | take p b =>
          obtain ⟨pool, hpool, hs⟩ := ok_of_bind hs
          cases hs
          exact (h.takeFrom (pool_eq_ok hpool)).of_eq (poolNames_nameBuilder _ b _)
      | giveBack p b =>
          obtain ⟨pool, -, hs⟩ := ok_of_bind hs
          obtain ⟨id, -, hs⟩ := ok_of_bind hs
          cases hs
          have hunnamed : (w.unnameBuilder b).Capped := h
          exact hunnamed.giveBackTo p pool id
      | rent p t keep =>
          obtain ⟨pool, pool₁, b, hpool, -, -, -, rfl⟩ := rent_eq_ok hs
          have hset : ((w.takeFrom p pool).2.setBuilder (w.takeFrom p pool).1
            (b.appendText t).2).Capped := h.takeFrom (pool_eq_ok hpool)
          cases keep with
          | some name => exact hset.of_eq (poolNames_nameBuilder _ name _)
          | none => exact hset.giveBackTo p pool₁ _
      | _ => cases hserves

end Capped

/-! ## §4. Taking a builder out of a pool. -/

/-- The pool `P` has handed out a builder under the name `b`: the one that waited longest,
or one that it made. -/
structure HandsOut (p : String) (P : Pool BuilderId) (b : String) (w w' : Workspace) : Prop
    extends Spares (some b) (some p) w w' where
  waiting : ∀ id rest, P.idle = id :: rest →
    w'.builderNames.get? b = some id ∧ w'.builderAt? id = w.builderAt? id ∧
      w'.poolNames.get? p = some { P with idle := rest }
  made : P.idle = [] → ∃ id, w.builderAt? id = none ∧ w'.builderNames.get? b = some id ∧
    w'.builderAt? id = some (.new P.options.builder) ∧ w'.poolNames.get? p = some P

/-- **Taking a builder out of a pool** always succeeds. -/
theorem step_take_ok (h : w.Owned) (hp : w.poolNames.get? p = some P) (b : String) :
    ∃ w', w.step (.take p b) = .ok (.done, w') ∧ HandsOut p P b w w' := by
  have hpool : w.pool p = .ok P := by rw [pool, hp]
  obtain ⟨-, hunowned, -⟩ := h.takeFrom hp
  refine ⟨_, step_take hpool b, ?_⟩
  have hspares : Spares (some b) (some p) w
      ((w.takeFrom p P).2.nameBuilder b (w.takeFrom p P).1) :=
    (spares_takeFrom w p P).trans (spares_nameBuilder _ b _)
  have hname := get?_nameBuilder (w.takeFrom p P).2 b (w.takeFrom p P).1
  have hat := builderAt?_nameBuilder (hunowned.unnamed b) (w.takeFrom p P).1
  have hpools := poolNames_nameBuilder (w.takeFrom p P).2 b (w.takeFrom p P).1
  refine ⟨hspares, fun id rest hidle => ?_, fun hidle => ?_⟩
  · have htake : w.takeFrom p P = (id, w.setPool p { P with idle := rest }) := by
      rw [takeFrom, Pool.take, hidle]
    rw [htake] at hname hat hpools ⊢
    exact ⟨hname, hat, by rw [hpools, get?_setPool, if_pos rfl]⟩
  · have htake : w.takeFrom p P = w.addBuilder (.new P.options.builder) := by
      rw [takeFrom, Pool.take, hidle]
    obtain ⟨-, -, hnew⟩ := h.addBuilder (.new P.options.builder)
    rw [htake] at hname hat hpools ⊢
    exact ⟨_, by simp [addBuilder, builderAt?], hname, hat.trans hnew, by rw [hpools]; exact hp⟩

/-! ## §5. Returning a builder to a pool. -/

/-- The builder `b`, which had the name, has gone back to the pool `P`: it is cleared and
waits at the end, or it is disposed. -/
structure TakesBack (p : String) (P : Pool BuilderId) (name : String) (id : BuilderId)
    (b : Builder) (w w' : Workspace) : Prop extends Spares (some name) (some p) w w' where
  unnamed : w'.builderNames.get? name = none
  accepted : P.Accepts b →
    w'.poolNames.get? p = some (P.put id) ∧ w'.builderAt? id = some b.clear
  rejected : ¬ P.Accepts b → w'.poolNames.get? p = some P ∧ w'.Gone id

theorem giveBackTo_of_accepts (hb : w.builderAt? id = some b) (ha : P.Accepts b) :
    w.giveBackTo p P id = (w.setBuilder id b.clear).setPool p (P.put id) := by
  simp only [giveBackTo, hb, Pool.fate_eq_kept_iff.mpr ha]

theorem giveBackTo_of_not_accepts (hb : w.builderAt? id = some b) (ha : ¬ P.Accepts b) :
    (w.giveBackTo p P id).poolNames = w.poolNames ∧ (w.giveBackTo p P id).Gone id := by
  simp only [giveBackTo, hb]
  cases hf : P.fate b with
  | forgotten =>
      refine ⟨rfl, b, hb, ?_⟩
      unfold Pool.fate at hf
      split at hf
      · assumption
      · split at hf
        · split at hf <;> cases hf
        · cases hf
  | unsuitable => exact ⟨poolNames_disposeBuilder w id, gone_disposeBuilder ⟨b, hb⟩⟩
  | crowded =>
      exact ⟨poolNames_disposeBuilder _ id,
        gone_disposeBuilder (builderAt?_setBuilder_isSome _ ⟨b, hb⟩)⟩
  | kept => exact absurd (Pool.fate_eq_kept_iff.mp hf) ha

/-- **Returning a builder to a pool** always succeeds. -/
theorem step_giveBack_ok (hp : w.poolNames.get? p = some P)
    (hname : w.builderNames.get? name = some id) (hb : w.builderAt? id = some b) :
    ∃ w', w.step (.giveBack p name) = .ok (.done, w') ∧ TakesBack p P name id b w w' := by
  have hstep : w.step (.giveBack p name) = .ok (.done, (w.unnameBuilder name).giveBackTo p P id) := by
    simp only [step, pool, builderId, hp, hname, bind, Except.bind]
  refine ⟨_, hstep, (spares_unnameBuilder w name).trans (spares_giveBackTo _ p P id), ?_, ?_, ?_⟩
  · rw [builderNames_giveBackTo, unnameBuilder]
    exact (Table.get?_erase ..).trans (if_pos rfl)
  · intro ha
    rw [giveBackTo_of_accepts (w := w.unnameBuilder name) hb ha, get?_setPool, if_pos rfl]
    refine ⟨rfl, ?_⟩
    show ((w.unnameBuilder name).setBuilder id b.clear).builderAt? id = _
    rw [builderAt?_setBuilder, if_pos rfl, show (w.unnameBuilder name).builderAt? id = some b from hb]
    rfl
  · intro ha
    obtain ⟨hpools, hgone⟩ := giveBackTo_of_not_accepts (w := w.unnameBuilder name) (p := p) hb ha
    exact ⟨by rw [hpools]; exact hp, hgone⟩

end Workspace
end ValueText
