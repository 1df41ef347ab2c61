/-
  ValueText.Proofs.Buffer.Alike — builders that differ in what nobody asks for.

  Two builders are alike if they have the same content and differ only in the memory
  that was not written since, in how far their counters are, and in what is left
  of the memory once they are disposed.  Every operation answers the same on both
  and leaves them alike: it writes the same units at the same indexes, and it
  looks at the counters to move them on only.

  Two snapshots are twins if they are bound to builders that are alike, at versions
  that are as far apart as the builders are, and have kept the same; or if both of
  them are blank.

  Main results:

    • `Alike.appendUnits`, `Alike.appendDisplay`, `Alike.terminate`, …  one step each;
    • `Alike.units_eq`  builders that are alike have the same content;
    • `Twin.readSegment?`, `Twin.readText?`, …  twins read the same.
-/
import ValueText.Proofs.Buffer.Retirement

namespace ValueText

/-! ## §1. Memory that agrees where it was written. -/

namespace Region

/-- The regions have as many units, and the same ones at the indexes of `W`. -/
structure Agree (W : Nat → Prop) (r₁ r₂ : Region) : Prop where
  size : r₁.capacity = r₂.capacity
  units : ∀ i, W i → r₁.units[i]? = r₂.units[i]?

theorem units_put (r : Region) (i : Nat) (u : CodeUnit) : (r.put i u).units = r.units.set i u := by
  unfold units put
  split <;> simp

variable {W V : Nat → Prop} {r₁ r₂ : Region}

theorem Agree.of_subset (h : Agree W r₁ r₂) (hsub : ∀ i, V i → W i) : Agree V r₁ r₂ :=
  ⟨h.size, fun i hi => h.units i (hsub i hi)⟩

theorem Agree.put (h : Agree W r₁ r₂) (i : Nat) (u : CodeUnit) :
    Agree (fun j => W j ∨ j = i) (r₁.put i u) (r₂.put i u) := by
  have hlength : r₁.units.length = r₂.units.length := by
    rw [length_units, length_units, h.size]
  refine ⟨?_, fun j hj => ?_⟩
  · rw [← length_units, ← length_units, units_put, units_put, List.length_set, List.length_set,
      hlength]
  · rw [units_put, units_put, List.getElem?_set, List.getElem?_set, hlength]
    by_cases hij : i = j
    · rw [if_pos hij, if_pos hij]
    · rw [if_neg hij, if_neg hij]
      exact h.units j (hj.resolve_right fun hji => hij hji.symm)

theorem Agree.write (us : List CodeUnit) : ∀ {W : Nat → Prop} {r₁ r₂ : Region} {i : Nat},
    Agree W r₁ r₂ →
    Agree (fun j => W j ∨ i ≤ j ∧ j < i + us.length) (r₁.write i us) (r₂.write i us) := by
  induction us with
  | nil =>
      intro W r₁ r₂ i h
      refine h.of_subset fun j hj => hj.resolve_right ?_
      simp only [List.length_nil]
      omega
  | cons u us ih =>
      intro W r₁ r₂ i h
      refine (ih (h.put i u)).of_subset fun j hj => ?_
      simp only [List.length_cons] at hj
      rcases hj with hj | hj
      · exact .inl (.inl hj)
      · by_cases hij : j = i
        · exact .inl (.inr hij)
        · exact .inr (by omega)

theorem agree_release (r₁ r₂ : Region) : Agree W r₁.release r₂.release := by
  have hreleased (r : Region) : r.release.units = [] := by
    unfold Region.release Region.units
    cases r.ownership <;> rfl
  refine ⟨?_, fun i _ => ?_⟩
  · rw [← length_units, ← length_units, hreleased, hreleased]
  · rw [hreleased, hreleased]

/-- The beginnings of two memories that agree there. -/
theorem Agree.slice_eq (h : Agree W r₁ r₂) {n : Nat} (hW : ∀ i, i < n → W i)
    (h₁ : r₁.ownership ≠ .released) (h₂ : r₂.ownership ≠ .released) :
    r₁.slice 0 n = r₂.slice 0 n := by
  have hunits (r : Region) (hr : r.ownership ≠ .released) : r.units = r.cells.toList := by
    rw [Region.units, if_neg hr]
  rw [slice_zero, slice_zero, ← hunits r₁ h₁, ← hunits r₂ h₂]
  refine List.ext_getElem? fun i => ?_
  rw [List.getElem?_take, List.getElem?_take]
  split
  · next hi => exact h.units i (hW i hi)
  · rfl

end Region

/-! ## §2. Builders that are alike. -/

/-- How far two builders are apart. -/
structure Gap where
  version : UInt64
  overflows : UInt64
  /-- The memory of one of them may be held when both are disposed. -/
  adrift : Prop

/-- Builders that are not apart. -/
def Gap.none : Gap := ⟨0, 0, False⟩

namespace Builder

/-- Two builders of one content.  Their memories agree at the indexes of `W`, which
cover the content; their counters are `g` apart. -/
structure Alike (g : Gap) (W : Nat → Prop) (b₁ b₂ : Builder) : Prop where
  length : b₂.length = b₁.length
  capacity : b₂.capacity = b₁.capacity
  policy : b₂.policy = b₁.policy
  pending : b₂.pending = b₁.pending
  disposed : b₂.disposed = b₁.disposed
  version : b₁.version = b₂.version + g.version
  overflows : b₁.overflows = b₂.overflows + g.overflows
  within : ∀ i, i < b₁.length → W i
  memory : (b₁.disposed = true → ¬ g.adrift) → b₁.region.Agree W b₂.region

/-- Two answers that are the same, and the builders after them. -/
def Match {α : Type} (g : Gap) (W : Nat → Prop) (a₁ a₂ : α × Builder) : Prop :=
  a₁.1 = a₂.1 ∧ Alike g W a₁.2 a₂.2

/-- The null termination stores its zero at the index. -/
def TerminatedAt (b : Builder) (i : Nat) : Prop :=
  i = b.terminate.2.length ∧ (b.length < b.capacity ∨ b.policy = .report ∧ 0 < b.length)

/-- A builder is alike to itself. -/
theorem Alike.refl (b : Builder) : Alike .none (fun _ => True) b b :=
  ⟨rfl, rfl, rfl, rfl, rfl, (UInt64.add_zero _).symm, (UInt64.add_zero _).symm,
    fun _ _ => trivial, fun _ => ⟨rfl, fun _ _ => rfl⟩⟩

namespace Alike

variable {g : Gap} {W V : Nat → Prop} {b₁ b₂ : Builder}

theorem of_subset (h : Alike g W b₁ b₂) (hsub : ∀ i, V i → W i)
    (hin : ∀ i, i < b₁.length → V i) : Alike g V b₁ b₂ :=
  ⟨h.length, h.capacity, h.policy, h.pending, h.disposed, h.version, h.overflows, hin,
    fun ha => (h.memory ha).of_subset hsub⟩

theorem congr (h : Alike g W b₁ b₂) (hiff : ∀ i, V i ↔ W i) : Alike g V b₁ b₂ :=
  h.of_subset (fun i => (hiff i).mp) fun i hi => (hiff i).mpr (h.within i hi)

/-- An overflow is counted on both sides. -/
theorem counted (h : Alike g W b₁ b₂) :
    Alike g W { b₁ with overflows := b₁.overflows + 1 }
      { b₂ with overflows := b₂.overflows + 1 } := by
  refine ⟨h.length, h.capacity, h.policy, h.pending, h.disposed, h.version, ?_, h.within, h.memory⟩
  show b₁.overflows + 1 = b₂.overflows + 1 + g.overflows
  rw [h.overflows]
  grind

theorem noted (h : Alike g W b₁ b₂) (p : Option Overflow) :
    Alike g W { b₁ with pending := p } { b₂ with pending := p } :=
  ⟨h.length, h.capacity, h.policy, rfl, h.disposed, h.version, h.overflows, h.within, h.memory⟩

theorem overflow (h : Alike g W b₁ b₂) (requested available : Nat) :
    Match g W (b₁.overflow requested available) (b₂.overflow requested available) := by
  have hcounts (b : Builder) :
      (b.overflow requested available).2 = { b with overflows := b.overflows + 1 } := by
    unfold Builder.overflow
    split <;> rfl
  refine ⟨?_, ?_⟩
  · unfold Builder.overflow
    rw [h.policy]
    cases b₁.policy <;> rfl
  · rw [hcounts, hcounts]
    exact h.counted

theorem commit (h : Alike g W b₁ b₂) {n : Nat} (hin : ∀ i, i < n → W i) :
    Alike g W (b₁.commit n) (b₂.commit n) :=
  ⟨rfl, h.capacity, h.policy, h.pending, h.disposed, h.version, h.overflows, hin, h.memory⟩

/-- A change of both memories. -/
theorem fill (h : Alike g W b₁ b₂) {change : Region → Region}
    (hV : ∀ i, i < b₁.length → V i)
    (hchange : ∀ r₁ r₂, Region.Agree W r₁ r₂ → Region.Agree V (change r₁) (change r₂)) :
    Alike g V (b₁.withRegion (change b₁.region)) (b₂.withRegion (change b₂.region)) :=
  ⟨h.length, h.capacity, h.policy, h.pending, h.disposed, h.version, h.overflows, hV,
    fun ha => hchange _ _ (h.memory ha)⟩

theorem put (h : Alike g W b₁ b₂) (i : Nat) (u : CodeUnit) :
    Alike g (fun j => W j ∨ j = i) (b₁.withRegion (b₁.region.put i u))
      (b₂.withRegion (b₂.region.put i u)) :=
  h.fill (fun j hj => .inl (h.within j hj)) fun _ _ hr => hr.put i u

/-- **An append** writes the same units behind the same content. -/
theorem appendUnits (h : Alike g W b₁ b₂) (us : List CodeUnit) :
    Match g (fun i => W i ∨ b₁.length ≤ i ∧ i < (b₁.appendUnits us).2.length)
      (b₁.appendUnits us) (b₂.appendUnits us) := by
  unfold Builder.appendUnits reserve
  rw [h.length, h.capacity]
  split
  · have hfill : Alike g (fun i => W i ∨ b₁.length ≤ i ∧ i < b₁.length + us.length)
        (b₁.withRegion (b₁.region.write b₁.length us))
        (b₂.withRegion (b₂.region.write b₁.length us)) :=
      h.fill (fun i hi => .inl (h.within i hi)) fun _ _ hr => hr.write us
    refine ⟨rfl, hfill.commit fun i hi => ?_⟩
    by_cases hlt : i < b₁.length
    · exact .inl (h.within i hlt)
    · exact .inr ⟨by omega, hi⟩
  · have ho := h.overflow us.length (b₁.capacity - b₁.length)
    refine ⟨ho.1, ho.2.congr fun i => ?_⟩
    have hlength : (b₁.overflow us.length (b₁.capacity - b₁.length)).2.length = b₁.length := by
      unfold Builder.overflow
      split <;> rfl
    rw [hlength]
    constructor
    · intro hi
      exact hi.resolve_right (by omega)
    · exact .inl

theorem truncate (h : Alike g W b₁ b₂) (n : Nat) : Alike g W (b₁.truncate n) (b₂.truncate n) := by
  unfold Builder.truncate
  rw [h.length]
  split
  · exact h.commit fun i hi => h.within i (by omega)
  · exact h

theorem clear (h : Alike g W b₁ b₂) : Alike g W b₁.clear b₂.clear := by
  refine ⟨rfl, h.capacity, h.policy, h.pending, h.disposed, ?_, h.overflows,
    fun i hi => absurd hi (Nat.not_lt_zero i), h.memory⟩
  show b₁.version + 1 = b₂.version + 1 + g.version
  rw [h.version]
  grind

/-- Both are disposed; the memories differ afterwards only if one of them is shared. -/
theorem dispose (h : Alike g W b₁ b₂) {shared₁ shared₂ : Bool}
    (hshared : shared₁ = shared₂ ∨ g.adrift) :
    Alike g W (b₁.dispose shared₁) (b₂.dispose shared₂) := by
  unfold Builder.dispose
  rw [h.disposed]
  split
  · exact h
  · next hd =>
      have hc := h.clear
      have hmemory := h.memory fun hdisposed => absurd hdisposed hd
      have hrest (r₁ r₂ : Region) (hr : ¬ g.adrift → Region.Agree W r₁ r₂) :
          Alike g W ({ b₁.clear with disposed := true, capacity := 0 }.withRegion r₁)
            ({ b₂.clear with disposed := true, capacity := 0 }.withRegion r₂) :=
        ⟨rfl, rfl, h.policy, h.pending, rfl, hc.version, hc.overflows, hc.within,
          fun ha => hr (ha rfl)⟩
      have hequal (ha : ¬ g.adrift) : shared₁ = shared₂ := hshared.resolve_right ha
      cases shared₁ with
      | false =>
          cases shared₂ with
          | false => exact hrest _ _ fun _ => Region.agree_release _ _
          | true => exact hrest _ b₂.region fun ha => nomatch hequal ha
      | true =>
          cases shared₂ with
          | false => exact hrest b₁.region _ fun ha => nomatch hequal ha
          | true => exact hrest b₁.region b₂.region fun _ => hmemory

theorem sink (h : Alike g W b₁ b₂) (s : String) :
    Match g (fun i => W i ∨ b₁.length ≤ i ∧ i < (b₁.sink s).2.length) (b₁.sink s) (b₂.sink s) := by
  have ha := h.appendUnits (CodeUnit.encode s)
  unfold Builder.sink appendText
  cases h₁ : b₁.appendUnits (CodeUnit.encode s) with
  | mk r₁ b₁' =>
      cases h₂ : b₂.appendUnits (CodeUnit.encode s) with
      | mk r₂ b₂' =>
          rw [h₁, h₂] at ha
          obtain ⟨hr, hb⟩ := ha
          dsimp only at hr hb
          subst hr
          cases r₁ with
          | ok v => exact ⟨rfl, hb⟩
          | error e => exact ⟨rfl, hb.noted (some e)⟩

theorem sinkTo (v : Display) : ∀ {W : Nat → Prop} {b₁ b₂ : Builder}, Alike g W b₁ b₂ →
    Match g (fun i => W i ∨ b₁.length ≤ i ∧ i < (v.sinkTo b₁).2.length)
      (v.sinkTo b₁) (v.sinkTo b₂) := by
  -- Induction on what is displayed: what one piece writes, the rest is written behind.
  induction v with
  | done ok =>
      intro W b₁ b₂ h
      refine ⟨rfl, h.congr fun i => ⟨fun hi => hi.resolve_right ?_, .inl⟩⟩
      show ¬ (b₁.length ≤ i ∧ i < b₁.length)
      omega
  | write s next ih =>
      intro W b₁ b₂ h
      obtain ⟨hwritten, hb⟩ := h.sink s
      have hle₁ := (keeps_sink (Nat.le_refl b₁.length) s).length
      unfold Display.sinkTo
      dsimp only
      rw [← hwritten]
      generalize b₁.sink s = x at hb hle₁ ⊢
      obtain ⟨written, b₁'⟩ := x
      have hrest := ih written hb
      have hle₂ := (keeps_sinkTo (next written) (Nat.le_refl b₁'.length)).length
      refine ⟨hrest.1, hrest.2.congr fun i => ?_⟩
      dsimp only at hle₁ ⊢
      constructor
      · rintro (hi | hi)
        · exact .inl (.inl hi)
        · by_cases hlt : i < b₁'.length
          · exact .inl (.inr ⟨hi.1, hlt⟩)
          · exact .inr ⟨by omega, hi.2⟩
      · rintro ((hi | hi) | hi)
        · exact .inl hi
        · exact .inr ⟨hi.1, by omega⟩
        · exact .inr ⟨by omega, hi.2⟩

/-- **A displayed value** writes the same pieces, also where it is taken back. -/
theorem appendDisplay (h : Alike g W b₁ b₂) (v : Display) :
    Match g (fun i => W i ∨ b₁.length ≤ i ∧ i < (v.sinkTo b₁).2.length)
      (b₁.appendDisplay v) (b₂.appendDisplay v) := by
  obtain ⟨hok, hb⟩ := sinkTo v h
  cases hshown : (v.sinkTo b₁).1 with
  | true =>
      rw [appendDisplay_of_shown hshown, appendDisplay_of_shown (hok.symm.trans hshown)]
      exact ⟨rfl, hb⟩
  | false =>
      rw [appendDisplay_of_failed hshown, appendDisplay_of_failed (hok.symm.trans hshown), h.length,
        hb.pending]
      exact ⟨rfl, (hb.truncate b₁.length).noted none⟩

/-- A text in pieces writes the same pieces. -/
theorem appendPieces (h : Alike g W b₁ b₂) (pieces : List String) (complete : Bool) :
    Match g (fun i => W i ∨ b₁.length ≤ i ∧ i < (b₁.sinkAll pieces complete).2.length)
      (b₁.appendPieces pieces complete) (b₂.appendPieces pieces complete) := by
  rw [sinkAll_eq, appendPieces_eq, appendPieces_eq]
  exact h.appendDisplay _

theorem terminate (h : Alike g W b₁ b₂) :
    Match g (fun i => W i ∨ b₁.TerminatedAt i) b₁.terminate b₂.terminate := by
  by_cases hroom : b₁.length < b₁.capacity
  · have ht (b : Builder) (hb : b.length < b.capacity) :
        b.terminate = (.ok true, b.withRegion (b.region.put b.length 0)) := by
      rw [Builder.terminate, if_pos hb]
    have hput := h.put b₁.length 0
    rw [ht b₁ hroom, ht b₂ (by rw [h.length, h.capacity]; exact hroom), h.length]
    refine ⟨rfl, hput.congr fun i => or_congr_right ?_⟩
    rw [TerminatedAt, ht b₁ hroom]
    exact ⟨fun hi => hi.1, fun hi => ⟨hi, .inl hroom⟩⟩
  · have ho := h.overflow 1 0
    have hroom₂ : ¬ b₂.length < b₂.capacity := by rwa [h.length, h.capacity]
    cases hp : b₁.policy with
    | error =>
        have ht (b : Builder) (hb : ¬ b.length < b.capacity) (hpolicy : b.policy = .error) :
            b.terminate = b.overflow 1 0 := by
          simp only [Builder.terminate, if_neg hb, Builder.overflow, hpolicy]
        rw [ht b₁ hroom hp, ht b₂ hroom₂ (h.policy.trans hp)]
        refine ⟨ho.1, ho.2.congr fun i => or_iff_left ?_⟩
        rintro ⟨-, hlt | ⟨hreport, -⟩⟩
        · exact hroom hlt
        · rw [hp] at hreport
          cases hreport
    | report =>
        -- A full builder gives up its last unit for the terminator.
        have ht (b : Builder) (hb : ¬ b.length < b.capacity) (hpolicy : b.policy = .report) :
            b.terminate = if 0 < b.length then
                (.ok false, ((b.overflow 1 0).2.withRegion
                  ((b.overflow 1 0).2.region.put (b.length - 1) 0)).commit (b.length - 1))
              else (.ok false, (b.overflow 1 0).2) := by
          simp only [Builder.terminate, if_neg hb, Builder.overflow, hpolicy]
        rw [ht b₂ hroom₂ (h.policy.trans hp), h.length]
        by_cases hpos : 0 < b₁.length
        · have hlast : b₁.terminate.2.length = b₁.length - 1 := by
            rw [ht b₁ hroom hp, if_pos hpos]
            rfl
          rw [ht b₁ hroom hp, if_pos hpos, if_pos hpos]
          refine ⟨rfl, ?_⟩
          have hput := (ho.2.put (b₁.length - 1) 0).congr (V := fun i => W i ∨ b₁.TerminatedAt i)
            fun i => or_congr_right ?_
          · refine hput.commit fun i hi => .inl (h.within i (by omega))
          · rw [TerminatedAt, hlast]
            exact ⟨fun hi => hi.1, fun hi => ⟨hi, .inr ⟨hp, hpos⟩⟩⟩
        · rw [ht b₁ hroom hp, if_neg hpos, if_neg hpos]
          refine ⟨rfl, ho.2.congr fun i => or_iff_left ?_⟩
          rintro ⟨-, hlt | ⟨-, hlt⟩⟩
          · exact hroom hlt
          · exact hpos hlt

theorem get? (h : Alike g W b₁ b₂) (ha : b₁.disposed = true → ¬ g.adrift) (i : Nat) :
    (W i → b₁.get? i = b₂.get? i) ∧
      Option.Rel (fun _ _ => True) (b₁.get? i) (b₂.get? i) := by
  have hr := h.memory ha
  refine ⟨hr.units i, ?_⟩
  have hlength : b₁.region.units.length = b₂.region.units.length := by
    rw [Region.length_units, Region.length_units, hr.size]
  show Option.Rel _ b₁.region.units[i]? b₂.region.units[i]?
  by_cases hi : i < b₁.region.units.length
  · rw [List.getElem?_eq_getElem hi, List.getElem?_eq_getElem (hlength ▸ hi)]
    exact .some trivial
  · rw [List.getElem?_eq_none (by omega), List.getElem?_eq_none (by omega)]
    exact .none

/-- Storing a unit is refused on both sides or on none. -/
theorem set?_isSome (h : Alike g W b₁ b₂) (ha : b₁.disposed = true → ¬ g.adrift) (i : Nat)
    (u : CodeUnit) : (b₁.set? i u).isSome = (b₂.set? i u).isSome := by
  simp only [Builder.set?, Region.store?, Option.isSome_map, (h.memory ha).size]
  split <;> rfl

/-- What is stored, where it is not refused. -/
theorem set? (h : Alike g W b₁ b₂) (i : Nat) (u : CodeUnit) :
    Alike g (fun j => W j ∨ j = i) ((b₁.set? i u).getD b₁) ((b₂.set? i u).getD b₂) := by
  have hset (b : Builder) : (b.set? i u).getD b =
      b.withRegion (if i < b.region.capacity then b.region.put i u else b.region) := by
    simp only [Builder.set?, Region.store?]
    split <;> rfl
  rw [hset, hset]
  refine ⟨h.length, h.capacity, h.policy, h.pending, h.disposed, h.version, h.overflows,
    fun j hj => .inl (h.within j hj), fun ha => ?_⟩
  have hr := h.memory ha
  show Region.Agree _ (if _ then _ else _) (if _ then _ else _)
  rw [← hr.size]
  split
  · exact hr.put i u
  · next hi =>
      -- There is no such index in either memory.
      refine ⟨hr.size, fun j hj => ?_⟩
      rcases hj with hj | rfl
      · exact hr.units j hj
      · rw [List.getElem?_eq_none (by rw [Region.length_units]; omega),
          List.getElem?_eq_none (by rw [Region.length_units, ← hr.size]; omega)]

/-- **Builders that are alike have the same content.** -/
theorem units_eq (h : Alike g W b₁ b₂) (hb₁ : b₁.Bounded) (hb₂ : b₂.Bounded) (hw : b₁.Whole) :
    b₁.units = b₂.units := by
  rw [units, units, h.length]
  by_cases hcapacity : b₁.capacity = 0
  · have hlength := hb₁.length
    rw [show b₁.length = 0 by omega, Region.slice_zero, Region.slice_zero]
    rfl
  · have halive : b₁.disposed ≠ true := fun hd => hcapacity (hw.disposed hd)
    refine (h.memory fun hd => absurd hd halive).slice_eq h.within (hb₁.owned (by omega)) ?_
    exact hb₂.owned (by rw [h.capacity]; omega)

end Alike

end Builder

/-! ## §3. Snapshots that are twins. -/

namespace Snapshot

/-- The builder and the version that a snapshot is bound to. -/
def tie? (s : Snapshot) : Option (BuilderId × UInt64) :=
  match s.origin with
  | .bound id v _ => some (id, v)
  | .units _ | .text _ => none

section Twins

variable (rename : BuilderId → BuilderId) (lag : BuilderId → UInt64)

/-- The snapshot, bound to the builder that stands for its own. -/
def carry (s : Snapshot) : Snapshot :=
  { s with origin := match s.origin with
      | .bound id v n => .bound (rename id) (v - lag id) n
      | .units seg => .units seg
      | .text t => .text t }

/-- Two snapshots that are bound to builders that stand for each other and have kept the
same, or of which both are blank. -/
structure Twin (s₁ s₂ : Snapshot) : Prop where
  tie : s₂.tie? = s₁.tie?.map fun p => (rename p.1, p.2 - lag p.1)
  same : s₂ = s₁.carry rename lag ∨ s₁.Blank ∧ s₂.Blank

/-- Builders that stand for each other publish the same content. -/
structure Views (see₁ see₂ : BuilderId → Published) : Prop where
  version : ∀ id, (see₁ id).version = (see₂ (rename id)).version + lag id
  length : ∀ id, (see₁ id).length = (see₂ (rename id)).length
  units : ∀ id, (see₁ id).region.slice 0 (see₁ id).length =
    (see₂ (rename id)).region.slice 0 (see₂ (rename id)).length

end Twins

variable {rename : BuilderId → BuilderId} {lag : BuilderId → UInt64}
  {see₁ see₂ : BuilderId → Published} {s s₁ s₂ : Snapshot}

theorem Views.version_iff (hv : Views rename lag see₁ see₂) (id : BuilderId) (v : UInt64) :
    (see₂ (rename id)).version = v - lag id ↔ (see₁ id).version = v := by
  rw [hv.version id]
  constructor
  · intro he
    rw [he]
    grind
  · intro he
    rw [← he]
    grind

theorem twin_carry (s : Snapshot) : Twin rename lag s (s.carry rename lag) := by
  refine ⟨?_, .inl rfl⟩
  unfold carry tie?
  cases s.origin <;> rfl

theorem isCurrent_carry (hv : Views rename lag see₁ see₂) (s : Snapshot) :
    (s.carry rename lag).isCurrent see₂ = s.isCurrent see₁ := by
  unfold carry isCurrent
  cases s.origin with
  | units seg => rfl
  | text t => rfl
  | bound id v n =>
      simp only [hv.version_iff, hv.length id]

theorem content_carry (hv : Views rename lag see₁ see₂) (hc : s.isCurrent see₁ = true) :
    (s.carry rename lag).content see₂ = s.content see₁ := by
  unfold isCurrent at hc
  unfold carry content
  cases ho : s.origin with
  | units seg => rfl
  | text t => rfl
  | bound id v n =>
      simp only [ho, Bool.and_eq_true, decide_eq_true_eq] at hc
      have hunits := hv.units id
      rw [← hv.length id, hc.2] at hunits
      exact hunits.symm

theorem readSegment?_carry (hv : Views rename lag see₁ see₂) (s : Snapshot) :
    (s.carry rename lag).readSegment? see₂ =
      (s.readSegment? see₁).map fun a => (a.1, a.2.carry rename lag) := by
  unfold readSegment?
  rw [isCurrent_carry hv]
  split
  · next hc =>
      rw [content_carry hv hc]
      obtain ⟨origin, array, text⟩ := s
      cases array <;> cases origin <;> rfl
  · rfl

theorem readArray?_carry (hv : Views rename lag see₁ see₂) (s : Snapshot) :
    (s.carry rename lag).readArray? see₂ =
      (s.readArray? see₁).map fun a => (a.1, a.2.carry rename lag) := by
  unfold readArray?
  rw [readSegment?_carry hv]
  cases s.readSegment? see₁ with
  | none => rfl
  | some a =>
      simp only [Option.map_some]
      split <;> rfl

theorem readText?_carry (hv : Views rename lag see₁ see₂) (s : Snapshot) :
    (s.carry rename lag).readText? see₂ =
      (s.readText? see₁).map fun a => (a.1, a.2.carry rename lag) := by
  unfold readText?
  rw [isCurrent_carry hv]
  split
  · next hc =>
      rw [content_carry hv hc]
      obtain ⟨origin, array, text⟩ := s
      cases text <;> cases array <;> cases origin <;> rfl
  · rfl

theorem freeze?_carry (hv : Views rename lag see₁ see₂) (s : Snapshot) :
    (s.carry rename lag).freeze? see₂ = (s.freeze? see₁).map (·.carry rename lag) := by
  have hfrozen : (s.carry rename lag).isFrozen = s.isFrozen := by
    obtain ⟨origin, array, text⟩ := s
    cases origin <;> rfl
  unfold freeze?
  rw [isCurrent_carry hv, hfrozen]
  split
  · rfl
  · split
    · next hc =>
        rw [content_carry hv hc]
        obtain ⟨origin, array, text⟩ := s
        cases array <;> cases text <;> rfl
    · rfl

theorem tie?_of_frozen (h : s.isFrozen = true) : s.tie? = none := by
  unfold isFrozen boundTo? at h
  unfold tie?
  cases ho : s.origin with
  | bound id v n => rw [ho] at h; cases h
  | units seg => rfl
  | text t => rfl

theorem recycle?_of_untied {see : BuilderId → Published} (h : s.tie? = none) :
    s.recycle? see = none := by
  unfold tie? at h
  unfold recycle?
  cases ho : s.origin with
  | bound id v n => rw [ho] at h; cases h
  | units seg => rfl
  | text t => rfl

theorem recycle?_of_tied {see : BuilderId → Published} {p : BuilderId × UInt64}
    (h : s.tie? = some p) : s.recycle? see = if s.isCurrent see then some s
      else some ⟨.bound p.1 (see p.1).version (see p.1).length, none, none⟩ := by
  unfold tie? at h
  unfold recycle? isCurrent
  cases ho : s.origin with
  | bound id v n => rw [ho] at h; cases h; rfl
  | units seg => rw [ho] at h; cases h
  | text t => rw [ho] at h; cases h

/-- A stale snapshot cannot be frozen. -/
theorem freeze?_of_stale {see : BuilderId → Published} (h : ¬ s.isCurrent see = true) :
    s.freeze? see = none := by
  have hf : ¬ s.isFrozen = true := by
    intro hf
    unfold isFrozen boundTo? at hf
    unfold isCurrent at h
    cases ho : s.origin with
    | bound id v n => rw [ho] at hf; cases hf
    | units seg => rw [ho] at h; exact h rfl
    | text t => rw [ho] at h; exact h rfl
  rw [freeze?, if_neg hf, if_neg h]

namespace Twin

/-- Two reads that show the same and leave twins. -/
def Same {α : Type} (rename : BuilderId → BuilderId) (lag : BuilderId → UInt64)
    (x₁ x₂ : Option (α × Snapshot)) : Prop :=
  Option.Rel (fun a₁ a₂ => a₁.1 = a₂.1 ∧ Twin rename lag a₁.2 a₂.2) x₁ x₂

theorem isCurrent (h : Twin rename lag s₁ s₂) (hv : Views rename lag see₁ see₂) :
    s₂.isCurrent see₂ = s₁.isCurrent see₁ := by
  rcases h.same with rfl | ⟨h₁, h₂⟩
  · exact isCurrent_carry hv s₁
  · have htie := h.tie
    unfold tie? at htie
    unfold Snapshot.isCurrent
    rcases h₁.origin with ⟨id₁, v₁, ho₁⟩ | ho₁ | ho₁ <;>
      rcases h₂.origin with ⟨id₂, v₂, ho₂⟩ | ho₂ | ho₂ <;>
      simp only [ho₁, ho₂, Option.map_some, Option.map_none, reduceCtorEq, Option.some.injEq,
        Prod.mk.injEq] at htie ⊢
    obtain ⟨rfl, rfl⟩ := htie
    simp only [hv.version_iff, hv.length id₁]

theorem with_array (h : Twin rename lag s₁ s₂) (h₁ : s₁.Blank) (h₂ : s₂.Blank) :
    Twin rename lag { s₁ with array := some (.whole []) } { s₂ with array := some (.whole []) } :=
  ⟨h.tie, .inr ⟨h₁.with_array, h₂.with_array⟩⟩

theorem with_text (h : Twin rename lag s₁ s₂) (h₁ : s₁.Blank) (h₂ : s₂.Blank) :
    Twin rename lag { s₁ with text := some "" } { s₂ with text := some "" } :=
  ⟨h.tie, .inr ⟨h₁.with_text, h₂.with_text⟩⟩

/-- The same read of a snapshot and of the one that stands for it. -/
theorem same_carry {α : Type} (x : Option (α × Snapshot)) :
    Same rename lag x (x.map fun a => (a.1, a.2.carry rename lag)) := by
  cases x with
  | none => exact .none
  | some a => exact .some ⟨rfl, twin_carry a.2⟩

/-- Of two snapshots without content both reads show the same, or both are refused. -/
theorem same_of_blank {α : Type} {c : Bool} {v : α} {t₁ t₂ : Snapshot}
    (h : Twin rename lag t₁ t₂) :
    Same rename lag (if c then some (v, t₁) else none) (if c then some (v, t₂) else none) := by
  split
  · exact .some ⟨rfl, h⟩
  · exact .none

theorem same_map {x₁ x₂ : Option Snapshot} (h : Option.Rel (Twin rename lag) x₁ x₂) :
    Same rename lag (x₁.map fun s => ((), s)) (x₂.map fun s => ((), s)) := by
  cases h with
  | none => exact .none
  | some ht => exact .some ⟨rfl, ht⟩

theorem readSegment? (h : Twin rename lag s₁ s₂) (hv : Views rename lag see₁ see₂) :
    Same rename lag (s₁.readSegment? see₁) (s₂.readSegment? see₂) := by
  rcases h.same with rfl | ⟨h₁, h₂⟩
  · rw [readSegment?_carry hv]
    exact same_carry _
  · rw [h₁.readSegment?, h₂.readSegment?, h.isCurrent hv]
    exact same_of_blank (h.with_array h₁ h₂)

theorem readArray? (h : Twin rename lag s₁ s₂) (hv : Views rename lag see₁ see₂) :
    Same rename lag (s₁.readArray? see₁) (s₂.readArray? see₂) := by
  rcases h.same with rfl | ⟨h₁, h₂⟩
  · rw [readArray?_carry hv]
    exact same_carry _
  · rw [h₁.readArray?, h₂.readArray?, h.isCurrent hv]
    exact same_of_blank (h.with_array h₁ h₂)

theorem readText? (h : Twin rename lag s₁ s₂) (hv : Views rename lag see₁ see₂) :
    Same rename lag (s₁.readText? see₁) (s₂.readText? see₂) := by
  rcases h.same with rfl | ⟨h₁, h₂⟩
  · rw [readText?_carry hv]
    exact same_carry _
  · rw [h₁.readText?, h₂.readText?, h.isCurrent hv]
    exact same_of_blank (h.with_text h₁ h₂)

theorem freeze? (h : Twin rename lag s₁ s₂) (hv : Views rename lag see₁ see₂) :
    Option.Rel (Twin rename lag) (s₁.freeze? see₁) (s₂.freeze? see₂) := by
  have hcurrent := h.isCurrent hv
  rcases h.same with rfl | ⟨h₁, h₂⟩
  · rw [freeze?_carry hv]
    cases s₁.freeze? see₁ with
    | none => exact .none
    | some s => exact .some (twin_carry s)
  · by_cases hc : s₁.isCurrent see₁ = true
    · obtain ⟨t₁, he₁, hb₁, hf₁⟩ := h₁.freeze? hc
      obtain ⟨t₂, he₂, hb₂, hf₂⟩ := h₂.freeze? (hcurrent.trans hc)
      rw [he₁, he₂]
      refine .some ⟨?_, .inr ⟨hb₁, hb₂⟩⟩
      rw [tie?_of_frozen hf₁, tie?_of_frozen hf₂]
      rfl
    · rw [freeze?_of_stale hc, freeze?_of_stale (hcurrent ▸ hc)]
      exact .none

theorem recycle? (h : Twin rename lag s₁ s₂) (hv : Views rename lag see₁ see₂) :
    Option.Rel (Twin rename lag) (s₁.recycle? see₁) (s₂.recycle? see₂) := by
  have hcurrent := h.isCurrent hv
  cases htie : s₁.tie? with
  | none =>
      have htie₂ : s₂.tie? = none := by rw [h.tie, htie]; rfl
      rw [recycle?_of_untied htie, recycle?_of_untied htie₂]
      exact .none
  | some p =>
      have htie₂ : s₂.tie? = some (rename p.1, p.2 - lag p.1) := by rw [h.tie, htie]; rfl
      rw [recycle?_of_tied htie, recycle?_of_tied htie₂, hcurrent]
      split
      · exact .some h
      · -- Both are bound anew, to what the builders publish now.
        have hversion : (see₁ p.1).version - lag p.1 = (see₂ (rename p.1)).version := by
          rw [hv.version p.1]
          grind
        have hcarry : (⟨.bound (rename p.1) (see₂ (rename p.1)).version
            (see₂ (rename p.1)).length, none, none⟩ : Snapshot) =
            carry rename lag ⟨.bound p.1 (see₁ p.1).version (see₁ p.1).length, none, none⟩ := by
          simp only [carry, hversion, hv.length p.1]
        rw [hcarry]
        exact .some (twin_carry _)

end Twin

end Snapshot

end ValueText
