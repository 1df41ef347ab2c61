/-
  ValueText.Proofs.Formatter.Rendering — the units that a writing stands for.

  Whatever formatters of the library append stands for units: a builder with room for all
  of them gets them.  On one without, the policy decides.  An append that is refused with
  an error stops the writing, so the error is answered in the end.  One that is only
  reported does not, and the writing is answered as if nothing had happened.  A formatter
  of the host is forthright if it does the same, as one does that appends texts; it might
  go on in another way after each answer.

  The count of overflows plays no part in this, so nothing is said of how long the text is.

  Main results:

    • `Appends.renders`       what is made of appends renders some units, if the writings
                              of the host do;
    • `forthright_texts`      those do that append texts;
    • `decode_ne_of_shorter`  fewer units make another text.
-/
import ValueText.Proofs.Formatter.Atomic
import ValueText.Proofs.Formatter.Parallel
import ValueText.Proofs.Text.Surrogates

namespace ValueText

open Builder (Ahead Framed)

/-! ## §1. Texts of different length. -/

namespace CodeUnit

/-- **Fewer units make another text**: decoding replaces units, it does not drop them. -/
theorem decode_ne_of_shorter {us vs : List CodeUnit} (h : us.length < vs.length) :
    decode us ≠ decode vs := by
  intro heq
  have hlength := congrArg (fun s => (encode s).length) heq
  simp only [encode_decode, mended_length] at hlength
  omega

end CodeUnit

/-! ## §2. Rendering. -/

namespace Writing

/-- The writing stands for `us`.  Without room for all of them it is answered by an error if
the policy is to do so, and as a success if the policy is to report. -/
structure Renders (us : List CodeUnit) (w : Writing Unit) : Prop where
  writes : Writes Ahead us w
  refuses : ∀ b : Builder, b.Bounded → b.policy = .error → b.remaining < us.length →
    ∃ e, (w b).1 = .error e
  accepts : ∀ b : Builder, b.Bounded → b.policy = .report → (w b).1 = .ok ()
  keeps : ∀ b : Builder, b.Bounded → Framed b (w b).2 ∧ (w b).2.Bounded

namespace Renders

variable {us vs : List CodeUnit} {w w' : Writing Unit}

theorem nothing : Renders [] (pure ()) where
  writes := .nothing
  refuses _ _ _ h := absurd h (Nat.not_lt_zero _)
  accepts _ _ _ := rfl
  keeps b hb := ⟨.refl b, hb⟩

theorem append {f : Builder → Appended} (h : ∀ b : Builder, f b = b.appendUnits us) :
    Renders us (Writing.append f) := by
  have hrun (b : Builder) : Writing.append f b =
      ((b.appendUnits us).1.map fun _ => (), (b.appendUnits us).2) := by
    show ((f b).1.map fun _ => (), (f b).2) = _
    rw [h]
  refine ⟨(Writes.append h).series, fun b _ hp hfull => ?_, fun b hb hp => ?_, fun b hb => ?_⟩
  · rw [hrun, Builder.appendUnits_of_lt hfull, Builder.refusal, hp]
    exact ⟨_, rfl⟩
  · rw [hrun]
    rcases Nat.lt_or_ge b.remaining us.length with hfull | hfit
    · rw [Builder.appendUnits_of_lt hfull, Builder.refusal, hp]
      rfl
    · rw [(Builder.lands_appendUnits hb hfit).1]
      rfl
  · rw [hrun]
    exact ⟨.appendUnits b us, hb.appendUnits us⟩

theorem pieces (ps : List String) : Renders (Builder.unitsOfPieces ps) (Writing.pieces ps) := by
  have hrun (b : Builder) : Writing.pieces ps b =
      ((b.appendPieces ps true).1.map fun _ => (), (b.appendPieces ps true).2) := rfl
  refine ⟨(Writes.pieces ps).series, fun b hb hp hfull => ?_, fun b hb hp => ?_, fun b hb => ?_⟩
  · obtain ⟨hanswer, -⟩ := Builder.restored_appendPieces true hb hfull
    rw [hp] at hanswer
    obtain ⟨e, he, -⟩ := hanswer
    rw [hrun, he]
    exact ⟨e, rfl⟩
  · rw [hrun]
    rcases Nat.lt_or_ge b.remaining (Builder.unitsOfPieces ps).length with hfull | hfit
    · obtain ⟨hanswer, -⟩ := Builder.restored_appendPieces true hb hfull
      rw [hp] at hanswer
      rw [hanswer]
      rfl
    · rw [(Builder.lands_appendPieces hb hfit).1]
      rfl
  · exact ⟨.appendPieces b ps true, hb.appendPieces ps true⟩

/-- The second writing is tried unless the first one was stopped. -/
theorem seq (h : Renders us w) (h' : Renders vs w') :
    Renders (us ++ vs) (w >>= fun _ => w') := by
  have hrun (b : Builder) : (w >>= fun _ => w') b =
      ExceptT.bindCont (fun _ => w') (w b).1 (w b).2 := rfl
  refine ⟨h.writes.seq h'.writes, fun b hb hp hfull => ?_, fun b hb hp => ?_, fun b hb => ?_⟩
  · rw [List.length_append] at hfull
    rcases Nat.lt_or_ge b.remaining us.length with hfirst | hfirst
    · obtain ⟨e, he⟩ := h.refuses b hb hp hfirst
      rw [hrun, he]
      exact ⟨e, rfl⟩
    · -- The first part fits and leaves too little room for the second one.
      obtain ⟨b₁, hw, hlands, hb₁⟩ := h.writes.fits b hb hfirst
      have hroom := hlands.remaining
      rw [hrun, hw]
      exact h'.refuses b₁ hb₁ (hlands.policy.trans hp) (by omega)
  · obtain ⟨hframed, hb₁⟩ := h.keeps b hb
    rw [hrun, h.accepts b hb hp]
    exact h'.accepts _ hb₁ (hframed.policy.trans hp)
  · obtain ⟨hframed, hb₁⟩ := h.keeps b hb
    rw [hrun]
    cases (w b).1 with
    | error e => exact ⟨hframed, hb₁⟩
    | ok u =>
        obtain ⟨hframed', hb₂⟩ := h'.keeps _ hb₁
        exact ⟨hframed.trans hframed', hb₂⟩

/-- Taking appends back does not change the answer. -/
theorem atomic (h : Renders us w) : Renders us (Writing.atomic w) := by
  have hanswer (b : Builder) : (Writing.atomic w b).1 = (w b).1 := rfl
  refine ⟨h.writes.atomic.series, fun b hb hp hfull => ?_, fun b hb hp => ?_, fun b hb => ?_⟩
  · rw [hanswer]
    exact h.refuses b hb hp hfull
  · rw [hanswer]
    exact h.accepts b hb hp
  · -- What is appended may be cut off again; the builder stays the same otherwise.
    obtain ⟨hframed, hb'⟩ := h.keeps b hb
    show Framed b (settle b _ (w b).2) ∧ (settle b _ (w b).2).Bounded
    unfold settle
    split
    · exact ⟨hframed.trans (.truncate _ _), hb'.truncate _⟩
    · exact ⟨hframed, hb'⟩

theorem texts (ss : List String) :
    Renders (ss.flatMap CodeUnit.encode) (Writing.texts ss) := by
  induction ss with
  | nil => exact .nothing
  | cons s rest ih =>
      rw [List.flatMap_cons]
      exact .seq (.append fun _ => rfl) ih

end Renders
end Writing

/-- The writing of the host stands for some units. -/
def HostWriting.Forthright (w : HostWriting) : Prop := ∃ us, Writing.Renders us w.run

theorem HostWriting.forthright_texts (ss : List String) : (texts ss).Forthright := by
  refine ⟨ss.flatMap CodeUnit.encode, ?_⟩
  rw [run_texts]
  exact .texts ss

namespace Writing

/-- **What is made of appends renders some units**, if the writings of the host do. -/
theorem Appends.renders {w : Writing Unit} (h : Appends HostWriting.Forthright w) :
    ∃ us, Renders us w := by
  -- Induction on how the writing is made.
  induction h with
  | nothing => exact ⟨[], .nothing⟩
  | append h => exact ⟨_, .append h⟩
  | pieces ps => exact ⟨_, .pieces ps⟩
  | host h => exact h
  | seq _ _ ih ih' =>
      obtain ⟨us, hus⟩ := ih
      obtain ⟨vs, hvs⟩ := ih'
      exact ⟨us ++ vs, hus.seq hvs⟩
  | atomic _ ih =>
      obtain ⟨us, hus⟩ := ih
      exact ⟨us, hus.atomic⟩

end Writing
end ValueText
