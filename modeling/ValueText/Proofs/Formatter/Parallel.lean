/-
  ValueText.Proofs.Formatter.Parallel — one text written to two builders.

  A builder that comes from a pool differs from a new one in its counters and in what
  its memory held before.  Appends look at neither, so what is written to both by
  appends alone is answered the same, fits in both or in none, and reads the same, if
  the same overflow is pending in both.

  All writing is made of appends.  A formatter of the host may go on as each answer makes
  it, and the answers are the same.

  Main results:

    • `Writing.Appends`     what is made of appends and of writings of the host;
    • `Leaf.appends`        all that formatters write is;
    • `Appends.parallel`    it does the same to builders that are `Parallel`;
    • `Appends.keeps`       and leaves alone what is not content.
-/
import ValueText.Proofs.Buffer.Alike
import ValueText.Proofs.Buffer.Appending
import ValueText.Proofs.Repository.Hosts

namespace ValueText

/-! ## §1. Builders that may be taken for one another. -/

namespace Builder

/-- The builder is made as the options say, and it is alive. -/
structure Fit (o : BuilderOptions) (b : Builder) : Prop where
  disposed : b.disposed = false
  capacity : b.capacity = o.capacity
  policy : b.policy = o.policy
  bounded : b.Bounded
  whole : b.Whole

/-- Two such builders of one content, whose counters are `g` apart. -/
structure Parallel (o : BuilderOptions) (g : Gap) (b b' : Builder) : Prop where
  left : b.Fit o
  right : b'.Fit o
  alike : ∃ W, Alike g W b b'

variable {o : BuilderOptions} {g : Gap} {b b' c c' : Builder}

theorem fit_new (o : BuilderOptions) : (new o).Fit o :=
  ⟨rfl, (ready_new { builder := o }).capacity, rfl, bounded_ofRegion _ _,
    whole_ofRegion (Region.allocate_ownership _) _⟩

theorem Fit.clear (h : b.Fit o) : b.clear.Fit o :=
  ⟨h.disposed, h.capacity, h.policy, h.bounded.clear, h.whole.clear⟩

theorem Fit.framed (h : b.Fit o) (hf : Framed b b') (hb : b'.Bounded) : b'.Fit o :=
  ⟨hf.disposed.trans h.disposed, hf.capacity.trans h.capacity, hf.policy.trans h.policy, hb,
    h.whole.framed hf⟩

theorem Fit.memory (h : b.Fit o) : b.region.capacity = o.capacity :=
  (h.whole.alive h.disposed).trans h.capacity

/-- Two builders without content are parallel if the same is pending in them. -/
theorem Fit.parallel (h : b.Fit o) (h' : b'.Fit o) (hb : b.length = 0) (hb' : b'.length = 0)
    (hp : b'.pending = b.pending) : ∃ g, Parallel o g b b' := by
  refine ⟨⟨b.version - b'.version, b.overflows - b'.overflows, False⟩, h, h', fun _ => False,
    hb'.trans hb.symm, h'.capacity.trans h.capacity.symm, h'.policy.trans h.policy.symm, hp,
    h'.disposed.trans h.disposed.symm, ?_, ?_, ?_, fun _ => ?_⟩
  · show b.version = b'.version + (b.version - b'.version)
    grind
  · show b.overflows = b'.overflows + (b.overflows - b'.overflows)
    grind
  · intro i hi
    rw [hb] at hi
    exact absurd hi (Nat.not_lt_zero i)
  · exact ⟨h.memory.trans h'.memory.symm, fun _ hi => hi.elim⟩

namespace Parallel

/-- **Parallel builders have the same text.** -/
theorem text_eq (h : Parallel o g b b') : b'.text = b.text := by
  obtain ⟨W, halike⟩ := h.alike
  exact congrArg CodeUnit.decode
    (halike.units_eq h.left.bounded h.right.bounded h.left.whole).symm

theorem length (h : Parallel o g b b') : b'.length = b.length := by
  obtain ⟨W, halike⟩ := h.alike
  exact halike.length

theorem pending (h : Parallel o g b b') : b'.pending = b.pending := by
  obtain ⟨W, halike⟩ := h.alike
  exact halike.pending

theorem truncate (h : Parallel o g b b') (n : Nat) :
    Parallel o g (b.truncate n) (b'.truncate n) := by
  obtain ⟨W, halike⟩ := h.alike
  have hfit {b : Builder} (h : b.Fit o) : (b.truncate n).Fit o :=
    h.framed (.truncate b n) (h.bounded.truncate n)
  exact ⟨hfit h.left, hfit h.right, W, halike.truncate n⟩

/-- **Units are appended to both or to none.** -/
theorem appendUnits (h : Parallel o g b b') (us : List CodeUnit) :
    (b'.appendUnits us).1 = (b.appendUnits us).1 ∧
      Parallel o g (b.appendUnits us).2 (b'.appendUnits us).2 := by
  obtain ⟨W, halike⟩ := h.alike
  obtain ⟨hanswer, hafter⟩ := halike.appendUnits us
  have hfit {b : Builder} (h : b.Fit o) : (b.appendUnits us).2.Fit o :=
    h.framed (.appendUnits b us) (h.bounded.appendUnits us)
  exact ⟨hanswer.symm, hfit h.left, hfit h.right, _, hafter⟩

/-- **A value is displayed to both alike.** -/
theorem appendDisplay (h : Parallel o g b b') (v : Display) :
    (b'.appendDisplay v).1 = (b.appendDisplay v).1 ∧
      Parallel o g (b.appendDisplay v).2 (b'.appendDisplay v).2 := by
  obtain ⟨W, halike⟩ := h.alike
  obtain ⟨hanswer, hafter⟩ := halike.appendDisplay v
  have hfit {b : Builder} (h : b.Fit o) : (b.appendDisplay v).2.Fit o :=
    h.framed (.appendDisplay b v) (h.bounded.appendDisplay v)
  exact ⟨hanswer.symm, hfit h.left, hfit h.right, _, hafter⟩

/-- What is taken back of one builder is taken back of the other. -/
theorem settle (hbefore : Parallel o g b b') (h : Parallel o g c c') (failed : Bool) :
    Parallel o g (Writing.settle b failed c) (Writing.settle b' failed c') := by
  have hsame : (c'.overflows ≠ b'.overflows) = (c.overflows ≠ b.overflows) := by
    obtain ⟨W, hb⟩ := hbefore.alike
    obtain ⟨V, hc⟩ := h.alike
    rw [hb.overflows, hc.overflows]
    grind
  unfold Writing.settle
  rw [hbefore.length]
  simp only [hsame]
  split
  · exact h.truncate b.length
  · exact h

end Parallel

end Builder

/-! ## §2. Writings of the host. -/

open Builder (Parallel Framed)

/-- **A writing of the host does the same to parallel builders.** -/
theorem HostWriting.parallel (w : HostWriting) {o : BuilderOptions} {g : Gap} :
    ∀ {b b' : Builder}, Parallel o g b b' →
      (w.run b').1 = (w.run b).1 ∧ Parallel o g (w.run b).2 (w.run b').2 := by
  -- Induction on the writing: it goes on with the same answer.
  induction w with
  | done answer => exact fun h => ⟨rfl, h⟩
  | units us next ih =>
      intro b b' h
      obtain ⟨hanswer, hafter⟩ := h.appendUnits us
      unfold run
      dsimp only
      rw [hanswer]
      exact ih _ hafter
  | display v next ih =>
      intro b b' h
      obtain ⟨hanswer, hafter⟩ := h.appendDisplay v
      unfold run
      dsimp only
      rw [hanswer]
      exact ih _ hafter

/-- A writing of the host leaves alone what is not content. -/
theorem HostWriting.keeps (w : HostWriting) : ∀ {b : Builder}, b.Bounded →
    Framed b (w.run b).2 ∧ (w.run b).2.Bounded := by
  induction w with
  | done answer => exact fun hb => ⟨.refl _, hb⟩
  | units us next ih =>
      intro b hb
      obtain ⟨hframed, hbounded⟩ := ih (b.appendUnits us).1 (hb.appendUnits us)
      exact ⟨(Framed.appendUnits b us).trans hframed, hbounded⟩
  | display v next ih =>
      intro b hb
      obtain ⟨hframed, hbounded⟩ := ih (b.appendDisplay v).1 (hb.appendDisplay v)
      exact ⟨(Framed.appendDisplay b v).trans hframed, hbounded⟩

/-! ## §3. Writings that are made of appends. -/

namespace Writing

/-- The writing changes the builder by appends only: of units, of texts in pieces, by writings of
the host that are known, and by several of these that are taken back together. -/
inductive Appends (Host : HostWriting → Prop) : Writing Unit → Prop
  | nothing : Appends Host (pure ())
  | append {f : Builder → Appended} {us : List CodeUnit}
      (h : ∀ b : Builder, f b = b.appendUnits us) : Appends Host (append f)
  | pieces (ps : List String) : Appends Host (pieces ps)
  | host {w : HostWriting} (h : Host w) : Appends Host w.run
  | seq {w w' : Writing Unit} (h : Appends Host w) (h' : Appends Host w') :
      Appends Host (w >>= fun _ => w')
  | atomic {w : Writing Unit} (h : Appends Host w) : Appends Host (atomic w)

namespace Appends

variable {Host : HostWriting → Prop}

theorem text (s : String) : Appends Host (Writing.text s) := .append fun _ => rfl

theorem units (us : List CodeUnit) : Appends Host (Writing.units us) := .append fun _ => rfl

theorem texts (ss : List String) : Appends Host (Writing.texts ss) := by
  induction ss with
  | nil => exact .nothing
  | cons s rest ih => exact .seq (.text s) ih

theorem braced (s : String) : Appends Host (Writing.braced s) := .atomic (.texts _)

theorem run_append (f : Builder → Appended) (b : Builder) :
    Writing.append f b = ((f b).1.map fun _ => (), (f b).2) := rfl

theorem run_seq (w w' : Writing Unit) (b : Builder) :
    (w >>= fun _ => w') b = ExceptT.bindCont (fun _ => w') (w b).1 (w b).2 := rfl

/-- **Appends do the same to parallel builders.** -/
theorem parallel {w : Writing Unit} (h : Appends Host w) {o : BuilderOptions} {g : Gap} :
    ∀ {b b' : Builder}, Parallel o g b b' → (w b').1 = (w b).1 ∧ Parallel o g (w b).2 (w b').2 := by
  -- Induction on how the writing is made.
  induction h with
  | nothing => exact fun hb => ⟨rfl, hb⟩
  | @append f us h =>
      intro b b' hb
      obtain ⟨hanswer, hafter⟩ := hb.appendUnits us
      rw [run_append, run_append, h, h]
      exact ⟨congrArg (Except.map fun _ => ()) hanswer, hafter⟩
  | pieces ps =>
      intro b b' hb
      obtain ⟨hanswer, hafter⟩ := hb.appendDisplay (.ofPieces true ps)
      unfold Writing.pieces
      rw [run_append, run_append, Builder.appendPieces_eq, Builder.appendPieces_eq]
      exact ⟨congrArg (Except.map fun _ => ()) hanswer, hafter⟩
  | @host w _ => exact w.parallel
  | @seq w w' _ _ ih ih' =>
      intro b b' hb
      obtain ⟨hanswer, hafter⟩ := ih hb
      rw [run_seq, run_seq, hanswer]
      cases (w b).1 with
      | error e => exact ⟨rfl, hafter⟩
      | ok u => exact ih' hafter
  | @atomic w _ ih =>
      intro b b' hb
      obtain ⟨hanswer, hafter⟩ := ih hb
      refine ⟨hanswer, ?_⟩
      show Parallel o g (settle b (stopped (w b).1) (w b).2) (settle b' (stopped (w b').1) (w b').2)
      rw [hanswer]
      exact hb.settle hafter _

/-- **Appends leave alone what is not content.** -/
theorem keeps {w : Writing Unit} (h : Appends Host w) : ∀ {b : Builder}, b.Bounded →
    Framed b (w b).2 ∧ (w b).2.Bounded := by
  induction h with
  | nothing => exact fun hb => ⟨.refl _, hb⟩
  | @append f us h =>
      intro b hb
      rw [run_append, h]
      exact ⟨.appendUnits b us, hb.appendUnits us⟩
  | pieces ps => exact fun hb => ⟨.appendPieces _ ps true, hb.appendPieces ps true⟩
  | @host w _ => exact w.keeps
  | @seq w w' _ _ ih ih' =>
      intro b hb
      obtain ⟨hframed, hbounded⟩ := ih hb
      rw [run_seq]
      cases (w b).1 with
      | error e => exact ⟨hframed, hbounded⟩
      | ok u =>
          obtain ⟨hframed', hbounded'⟩ := ih' hbounded
          exact ⟨hframed.trans hframed', hbounded'⟩
  | @atomic w _ ih =>
      -- What is appended may be cut off again; the builder stays the same otherwise.
      intro b hb
      obtain ⟨hframed, hbounded⟩ := ih hb
      show Framed b (settle b (stopped (w b).1) (w b).2) ∧
        (settle b (stopped (w b).1) (w b).2).Bounded
      unfold settle
      split
      · exact ⟨hframed.trans (.truncate _ _), hbounded.truncate _⟩
      · exact ⟨hframed, hbounded⟩

end Appends
end Writing

/-! ## §4. Formatters. -/

open Writing (Appends)

variable {Host : HostWriting → Prop}

namespace TypedFormatter

theorem appends_writeText (quoted : Bool) (s : String) : Appends Host (writeText quoted s) := by
  cases quoted with
  | false => exact .text s
  | true => exact .atomic (.seq (.units _) (.seq (.text s) (.units _)))

theorem appends_writeChar (quoted : Bool) (c : Char) : Appends Host (writeChar quoted c) := by
  unfold writeChar
  split
  · exact .units _
  · split
    · exact .nothing
    · exact .append fun _ => rfl

theorem appends_writeRendering (r : Rendering) : Appends Host (writeRendering r) := by
  unfold writeRendering
  split
  · exact .text _
  · exact .braced _

theorem appends_writeView {f : TypedFormatter} (hf : f.Hosts Host) (v : View) :
    Appends Host (f.writeView v) := by
  unfold writeView
  split
  · exact .host (hf _)
  · exact .append fun _ => rfl
  · next w n _ => exact .append fun b => b.appendInt_eq_appendUnits w n
  · exact .pieces _
  · exact .pieces _
  · exact appends_writeChar _ _
  · exact appends_writeText _ _
  · exact appends_writeText _ _
  · exact .pieces _
  · exact .pieces _
  · exact .pieces _
  · exact .text _
  · exact .text _
  · split
    · exact appends_writeRendering _
    · exact .nothing
  · exact .nothing

theorem appends_writeNull {f : TypedFormatter} (hf : f.Hosts Host) : Appends Host f.writeNull := by
  unfold writeNull
  split
  · exact .nothing
  · exact .nothing
  · exact .host (hf _)
  · exact .text _

theorem appends_write {f : TypedFormatter} (hf : f.Hosts Host) (v : Option View) :
    Appends Host (f.write v) := by
  cases v with
  | none => exact appends_writeNull hf
  | some v => exact appends_writeView hf v

end TypedFormatter

namespace Formatter

theorem appends_writeNull {f : Formatter} (hf : f.Hosts Host) : Appends Host f.writeNull := by
  unfold writeNull
  split
  · exact TypedFormatter.appends_writeNull hf
  · exact .host (hf _)
  · exact .text _

/-- **All that formatters write by themselves is made of appends.** -/
theorem Leaf.appends {w : Writing Unit} (h : Leaf (Formatter.Hosts Host) w) : Appends Host w := by
  cases h with
  | view hf v => exact TypedFormatter.appends_writeView hf v
  | custom hf v => exact .host (hf _)
  | text s => exact .text s
  | units us => exact .units us
  | braced s => exact .braced s

end Formatter

/-- Appends are handed on from parts to wholes. -/
theorem appendsWritings (Host : HostWriting → Prop) :
    WritingRules (Formatter.Hosts Host) (Appends Host) (Appends Host) where
  leaf h := h.appends
  texts := .texts
  series h := h
  seq := .seq
  atomic := .atomic

/-- **All that a formatter writes at a desk is made of appends**, where the writings of the host
that a repository finds are known. -/
theorem StaticFormatter.amountsTo_appends {J : Option Repository → Prop}
    (hJ : ∀ r t, J (some r) →
      (r.getRuntime t).1.formatter.Hosts Host ∧ J (some (r.getRuntime t).2))
    {f : StaticFormatter} (hf : f.Hosts Host) (v : Option View) :
    Desk.AmountsTo (fun d => J d.home) (Appends Host) (f.write v) := by
  have hrules := (appendsWritings Host).rules hJ
  match f, hf, v with
  | .exact f, hf, v => exact .append (TypedFormatter.appends_write hf v)
  | .converting f, hf, none => exact .append (Formatter.appends_writeNull hf)
  | .converting f, hf, some v =>
      exact (hrules.typed () v.value).amountsTo fun t _ =>
        hrules.writeValue () f ⟨v.value, t⟩ hf trivial

end ValueText
