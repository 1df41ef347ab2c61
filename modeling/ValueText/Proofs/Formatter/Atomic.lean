/-
  ValueText.Proofs.Formatter.Atomic — what formatters append, all of it or nothing.

  Under the reporting policy appends go on after one that did not fit, and may well
  fit themselves.  So a sequence of appends is known to have failed only by the
  count of overflows, and that is what `atomic` looks at.  The count never comes
  round to where it was: it grows at most once for each unit of the text, and a text
  that fits into some builder has fewer than `2 ^ 64`.

  Main results:

    • `Writes After us w`  the writing `w` stands for the units `us`; on a builder
                           without room for them it leaves what `After` says;
    • `Writes.seq`         sequences, which may leave a part (`Ahead`);
    • `Writes.atomic`      what is taken back leaves nothing (`Restored`);
    • `writes_writeView`   every formatter that is built in writes all or nothing.
-/
import ValueText.Proofs.Buffer.Appending
import ValueText.Formatter.Basic

namespace ValueText

open Builder (Lands Ahead Restored)

/-! ## §1. Writings that stand for units. -/

/-- The writing appends `us` to every builder that has room for them.  On every other one
it is answered as the policy says, after up to `us.length` overflows, and `After` says what
has become of the builder. -/
structure Writes (After : Builder → UInt64 → Builder → Prop) (us : List CodeUnit)
    (w : Writing Unit) : Prop where
  fits : ∀ b : Builder, b.Bounded → us.length ≤ b.remaining →
    ∃ b', w b = (.ok (), b') ∧ b.Lands us b' ∧ b'.Bounded
  full : ∀ b : Builder, b.Bounded → b.remaining < us.length → us.length < 2 ^ 64 →
    ∃ b' k, (match b.policy with
        | .report => w b = (.ok (), b')
        | .error => ∃ e, w b = (.error e, b')) ∧
      After b (UInt64.ofNat k) b' ∧ b'.Bounded ∧ 0 < k ∧ k ≤ us.length

namespace Builder

variable {b b' : Builder} {us : List CodeUnit}

/-- What was taken back is no more ahead than before. -/
theorem Restored.ahead {n : UInt64} (h : Restored b n b') : Ahead b n b' :=
  ⟨Nat.le_of_eq h.length.symm, h.memory, h.version, h.capacity, h.policy, h.overflows⟩

theorem restored_refused (b : Builder) : Restored b 1 b.refused :=
  ⟨rfl, rfl, fun _ _ => rfl, rfl, rfl, rfl, rfl⟩

end Builder

namespace Writes

variable {After : Builder → UInt64 → Builder → Prop} {us vs : List CodeUnit} {w w' : Writing Unit}

/-- A whole writing may stand in a sequence. -/
theorem series (h : Writes Restored us w) : Writes Ahead us w := by
  refine ⟨h.fits, fun b hb hfull hsize => ?_⟩
  obtain ⟨b', k, hanswer, hr, hrest⟩ := h.full b hb hfull hsize
  exact ⟨b', k, hanswer, hr.ahead, hrest⟩

theorem nothing : Writes After [] (pure ()) := by
  refine ⟨fun b hb _ => ⟨b, rfl, .nil b, hb⟩, fun b _ hfull => ?_⟩
  exact absurd hfull (Nat.not_lt_zero _)

/-- A single append of units is whole. -/
theorem append {f : Builder → Appended} (h : ∀ b : Builder, f b = b.appendUnits us) :
    Writes Restored us (Writing.append f) := by
  refine ⟨fun b hb hfit => ?_, fun b hb hfull _ => ?_⟩
  · obtain ⟨hok, hlands⟩ := Builder.lands_appendUnits hb hfit
    refine ⟨(b.appendUnits us).2, ?_, hlands, hb.appendUnits us⟩
    show ((f b).1.map fun _ => (), (f b).2) = _
    rw [h, hok]
    rfl
  · have hrefused := hb.appendUnits us
    rw [Builder.appendUnits_of_lt hfull] at hrefused
    refine ⟨b.refused, 1, ?_, b.restored_refused, hrefused, Nat.one_pos, ?_⟩
    · have hw : Writing.append f b = ((b.refusal us.length).map fun _ => (), b.refused) := by
        show ((f b).1.map fun _ => (), (f b).2) = _
        rw [h, Builder.appendUnits_of_lt hfull]
      rw [hw, Builder.refusal]
      cases b.policy with
      | report => rfl
      | error => exact ⟨_, rfl⟩
    · exact Nat.lt_of_le_of_lt (Nat.zero_le _) hfull

/-- A text in pieces is whole. -/
theorem pieces (ps : List String) :
    Writes Restored (Builder.unitsOfPieces ps) (Writing.pieces ps) := by
  refine ⟨fun b hb hfit => ?_, fun b hb hfull _ => ?_⟩
  · obtain ⟨hok, hlands⟩ := Builder.lands_appendPieces hb hfit
    refine ⟨_, ?_, hlands, hb.appendPieces ps true⟩
    show ((b.appendPieces ps true).1.map fun _ => (), _) = _
    rw [hok]
    rfl
  · obtain ⟨hanswer, hr⟩ := Builder.restored_appendPieces true hb hfull
    refine ⟨_, 1, ?_, hr, hb.appendPieces ps true, Nat.one_pos,
      Nat.lt_of_le_of_lt (Nat.zero_le _) hfull⟩
    have hw : Writing.pieces ps b =
        ((b.appendPieces ps true).1.map fun _ => (), (b.appendPieces ps true).2) := rfl
    rw [hw]
    cases hp : b.policy with
    | report =>
        rw [hp] at hanswer
        simp only at hanswer ⊢
        rw [hanswer]
        rfl
    | error =>
        rw [hp] at hanswer
        obtain ⟨e, he, -⟩ := hanswer
        exact ⟨e, by rw [he]; rfl⟩

/-- **A sequence of writings** may leave its first part, and whatever fitted later. -/
theorem seq (h : Writes Ahead us w) (h' : Writes Ahead vs w') :
    Writes Ahead (us ++ vs) (w >>= fun _ => w') := by
  have hok {b b₁ : Builder} (hw : w b = (.ok (), b₁)) : (w >>= fun _ => w') b = w' b₁ := by
    show (ExceptT.bindCont (fun _ => w') (w b).1) (w b).2 = _
    rw [hw]
    rfl
  have herror {b b₁ : Builder} {e : Overflow} (hw : w b = (.error e, b₁)) :
      (w >>= fun _ => w') b = (.error e, b₁) := by
    show (ExceptT.bindCont (fun _ => w') (w b).1) (w b).2 = _
    rw [hw]
    rfl
  refine ⟨fun b hb hfit => ?_, fun b hb hfull hsize => ?_⟩
  · rw [List.length_append] at hfit
    obtain ⟨b₁, hw, hl₁, hb₁⟩ := h.fits b hb (by omega)
    have hroom := hl₁.remaining
    obtain ⟨b₂, hw', hl₂, hb₂⟩ := h'.fits b₁ hb₁ (by omega)
    exact ⟨b₂, (hok hw).trans hw', hl₁.trans hl₂, hb₂⟩
  · rw [List.length_append] at hfull hsize ⊢
    rcases Nat.lt_or_ge b.remaining us.length with hfirst | hfirst
    · -- The first part does not fit: under the reporting policy the second one is still tried.
      obtain ⟨b₁, k, hanswer, ha₁, hb₁, hk, hle⟩ := h.full b hb hfirst (by omega)
      cases hp : b.policy with
      | error =>
          rw [hp] at hanswer
          obtain ⟨e, hw⟩ := hanswer
          exact ⟨b₁, k, ⟨e, herror hw⟩, ha₁, hb₁, hk, by omega⟩
      | report =>
          rw [hp] at hanswer
          have hp₁ : b₁.policy = .report := ha₁.policy.trans hp
          rcases Nat.lt_or_ge b₁.remaining vs.length with hsecond | hsecond
          · obtain ⟨b₂, k', hanswer', ha₂, hb₂, -, hle'⟩ := h'.full b₁ hb₁ hsecond (by omega)
            rw [hp₁] at hanswer'
            refine ⟨b₂, k + k', (hok hanswer).trans hanswer', ?_, hb₂, by omega, by omega⟩
            rw [UInt64.ofNat_add]
            exact ha₁.trans ha₂
          · obtain ⟨b₂, hw', hl₂, hb₂⟩ := h'.fits b₁ hb₁ hsecond
            refine ⟨b₂, k, (hok hanswer).trans hw', ?_, hb₂, hk, by omega⟩
            have ha := ha₁.trans hl₂.ahead
            rwa [UInt64.add_zero] at ha
    · -- The first part fits, so there is no room left for the second one.
      obtain ⟨b₁, hw, hl₁, hb₁⟩ := h.fits b hb hfirst
      have hroom := hl₁.remaining
      obtain ⟨b₂, k, hanswer, ha₂, hb₂, hk, hle⟩ := h'.full b₁ hb₁ (by omega) (by omega)
      rw [hl₁.policy] at hanswer
      have ha := hl₁.ahead.trans ha₂
      rw [UInt64.zero_add] at ha
      cases hp : b.policy with
      | report =>
          rw [hp] at hanswer
          exact ⟨b₂, k, (hok hw).trans hanswer, ha, hb₂, hk, by omega⟩
      | error =>
          rw [hp] at hanswer
          obtain ⟨e, hw'⟩ := hanswer
          exact ⟨b₂, k, ⟨e, (hok hw).trans hw'⟩, ha, hb₂, hk, by omega⟩

/-- **What is taken back leaves nothing.**  The overflows of the sequence are fewer than
`2 ^ 64`, so the count has moved if there was any. -/
theorem atomic (h : Writes Ahead us w) : Writes Restored us (Writing.atomic w) := by
  have hrun {b b' : Builder} {r : Except Overflow Unit} (hw : w b = (r, b')) :
      Writing.atomic w b = (r, Writing.settle b (Writing.stopped r) b') := by
    show ((w b).1, Writing.settle b (Writing.stopped (w b).1) (w b).2) = _
    rw [hw]
  refine ⟨fun b hb hfit => ?_, fun b hb hfull hsize => ?_⟩
  · obtain ⟨b', hw, hl, hb'⟩ := h.fits b hb hfit
    refine ⟨b', ?_, hl, hb'⟩
    rw [hrun hw, Writing.settle, if_neg (by simp [Writing.stopped, hl.overflows])]
  · obtain ⟨b', k, hanswer, ha, hb', hk, hle⟩ := h.full b hb hfull hsize
    have hmoved : b'.overflows ≠ b.overflows := by
      rw [ha.overflows]
      intro hc
      have hzero : UInt64.ofNat k = 0 := by grind
      have hnat := congrArg UInt64.toNat hzero
      rw [UInt64.toNat_ofNat_of_lt' (by show k < 2 ^ 64; omega)] at hnat
      exact absurd hnat (by show k ≠ 0; omega)
    have hsettle (failed : Bool) : Writing.settle b failed b' = b'.truncate b.length := by
      rw [Writing.settle, if_pos (by simp [hmoved])]
    refine ⟨b'.truncate b.length, k, ?_, ha.restored, hb'.truncate _, hk, hle⟩
    cases hp : b.policy with
    | report =>
        rw [hp] at hanswer
        simp only at hanswer ⊢
        rw [hrun hanswer, hsettle]
    | error =>
        rw [hp] at hanswer
        obtain ⟨e, hw⟩ := hanswer
        exact ⟨e, by rw [hrun hw, hsettle]⟩

/-! ## §2. What formatters are made of. -/

theorem text (s : String) : Writes Restored (CodeUnit.encode s) (Writing.text s) :=
  append fun _ => rfl

theorem units (us : List CodeUnit) : Writes Restored us (Writing.units us) := append fun _ => rfl

theorem texts (ss : List String) :
    Writes Ahead (ss.flatMap CodeUnit.encode) (Writing.texts ss) := by
  induction ss with
  | nil => exact nothing
  | cons s rest ih => exact (text s).series.seq ih

theorem braced (s : String) :
    Writes Restored (["\x7b", s, "\x7d"].flatMap CodeUnit.encode) (Writing.braced s) :=
  (texts _).atomic

end Writes

/-! ## §3. Formatters that are built in. -/

/-- The formatter is one of the library. -/
def Formatter.Builtin : Formatter → Prop
  | .direct _ (.custom _ _) => False
  | .general (.custom _ _) => False
  | _ => True

/-- A writing that stands for some units, all of them or none. -/
def WritesWhole (w : Writing Unit) : Prop := ∃ us, Writes Restored us w

namespace TypedFormatter

theorem writes_writeText (quoted : Bool) (s : String) : WritesWhole (writeText quoted s) := by
  cases quoted with
  | false => exact ⟨_, .text s⟩
  | true =>
      -- Three appends, so they have to be taken back together.
      have hinside := (Writes.text s).series.seq (Writes.units [doubleQuote]).series
      exact ⟨_, ((Writes.units [doubleQuote]).series.seq hinside).atomic⟩

theorem writes_writeChar (quoted : Bool) (c : Char) : WritesWhole (writeChar quoted c) := by
  unfold writeChar
  split
  · exact ⟨_, .units _⟩
  · split
    · exact ⟨_, .nothing⟩
    · exact ⟨_, .append fun _ => rfl⟩

theorem writes_writeRendering (r : Rendering) : WritesWhole (writeRendering r) := by
  unfold writeRendering
  split
  · exact ⟨_, .text _⟩
  · exact ⟨_, .braced _⟩

/-- **Every formatter that is built in writes all or nothing.** -/
theorem writes_writeView {t : HostType} {f : TypedFormatter} (hf : Formatter.Builtin (.direct t f))
    (v : View) : WritesWhole (f.writeView v) := by
  unfold writeView
  split
  · exact hf.elim
  · exact ⟨_, .append fun _ => rfl⟩
  · next w n _ => exact ⟨_, .append fun b => b.appendInt_eq_appendUnits w n⟩
  · exact ⟨_, .pieces _⟩
  · exact ⟨_, .pieces _⟩
  · exact writes_writeChar _ _
  · exact writes_writeText _ _
  · exact writes_writeText _ _
  · exact ⟨_, .pieces _⟩
  · exact ⟨_, .pieces _⟩
  · exact ⟨_, .pieces _⟩
  · exact ⟨_, .text _⟩
  · exact ⟨_, .text _⟩
  · split
    · exact writes_writeRendering _
    · exact ⟨_, .nothing⟩
  · exact ⟨_, .nothing⟩

theorem writes_writeNull {t : HostType} {f : TypedFormatter}
    (hf : Formatter.Builtin (.direct t f)) : WritesWhole f.writeNull := by
  unfold writeNull
  split
  · exact ⟨_, .nothing⟩
  · exact ⟨_, .nothing⟩
  · exact hf.elim
  · exact ⟨_, .text _⟩

end TypedFormatter
end ValueText
