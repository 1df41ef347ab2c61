/-
  ValueText.Proofs.Repository.Rules — what holds of everything that formatters do.

  A formatter works at a desk in few ways: it appends something by itself, it looks
  something up, it takes several appends back together, and it leaves work to other
  formatters that it finds.  What holds of the single ways and is handed on from the
  parts to the whole holds of all writing, however values are nested.

  The recursion is gone through once, for two works that write the same value at desks
  of their own.  What they find there may differ in all but the formatters.

      Leaf       what a formatter appends by itself, in one piece
      PairRules  properties of pairs of works, with a rule for each way
      Rules      properties of works, `Whole` and `Series`, with a rule for each way

  Main results:

    • `PairRules.writeValue`  by the recursion of writing, the works of a good formatter
                              at two desks are whole together;
    • `Rules.writeValue`      the work of every good formatter is whole;
    • `Desk.AmountsTo`        the work is a writing of the builder, with a lemma for each way;
    • `WritingRules.rules`    so what is handed on by writings is handed on by work;
    • `Desk.homeRules`        what writing keeps of the repository.
-/
import ValueText.Repository.Writing

namespace ValueText

/-! ## §1. Work at a desk. -/

/-- The desk with another builder. -/
def Desk.onto (d : Desk) (b : Builder) : Desk := { d with builder := b }

/-- Work at a desk as a writing of the desk's builder. -/
def DeskWork.beside (x : DeskWork Unit) (d : Desk) : Writing Unit := fun b =>
  ((x (d.onto b)).1, (x (d.onto b)).2.builder)

theorem Desk.run_bind_ok {α : Type} {x : DeskWork α} {k : α → DeskWork Unit} {d d' : Desk} {a : α}
    (h : x d = (.ok a, d')) : (x >>= k) d = k a d' := by
  show (ExceptT.bindCont k (x d).1) (x d).2 = _
  rw [h]
  rfl

theorem Desk.run_bind_error {α : Type} {x : DeskWork α} {k : α → DeskWork Unit} {d d' : Desk}
    {e : Overflow} (h : x d = (.error e, d')) : (x >>= k) d = (.error e, d') := by
  show (ExceptT.bindCont k (x d).1) (x d).2 = _
  rw [h]
  rfl

/-- A repository that is gone has no formatters. -/
theorem Desk.formatterFor_gone {d : Desk} (h : d.home = none) (t : Descriptor) :
    formatterFor t d = (.ok none, d) := by
  unfold formatterFor
  rw [h]

/-- A repository that is there answers with a formatter and remembers it. -/
theorem Desk.formatterFor_there {d : Desk} {r : Repository} (h : d.home = some r)
    (t : Descriptor) : formatterFor t d =
      (.ok (some (r.getRuntime t).1), { d with home := some (r.getRuntime t).2 }) := by
  unfold formatterFor
  rw [h]

/-- Work after something was looked up, whatever the builder. -/
theorem DeskWork.beside_bind {α : Type} {x : DeskWork α} {k : α → DeskWork Unit} {d d' : Desk}
    {a : α} (h : ∀ b, x (d.onto b) = (.ok a, d'.onto b)) :
    DeskWork.beside (x >>= k) d = (k a).beside d' := by
  funext b
  rw [DeskWork.beside, Desk.run_bind_ok (h b)]
  rfl

/-! ## §2. Rules for two desks. -/

/-- What a formatter among the good ones appends by itself. -/
inductive Formatter.Leaf (Good : Formatter → Prop) : Writing Unit → Prop
  | view {t : HostType} {f : TypedFormatter} (h : Good (.direct t f)) (v : View) :
      Leaf Good (f.writeView v)
  | custom {k : FormatterKind} {writing : Option TypedValue → HostWriting}
      (h : Good (.general (.custom k writing))) (v : TypedValue) :
      Leaf Good (writing (some v)).run
  | text (s : String) : Leaf Good (Writing.text s)
  | units (us : List CodeUnit) : Leaf Good (Writing.units us)
  | braced (s : String) : Leaf Good (Writing.braced s)

open Formatter (Leaf)

/-- Two handles of one formatter, which is a good one. -/
structure Handle.Shares (Good : Formatter → Prop) (h h' : Handle) : Prop where
  formatter : h'.formatter = h.formatter
  good : Good h.formatter

/-- Properties of pairs of works that are handed on from parts to wholes.

A work is done at a moment, and the rest of the work at a later one.  The good formatters are
those that look-ups find for types that are known at the moment.  `Look m x y P` says that `x`
and `y` only look something up, and that `P` holds of what they find and of the moment that
they lead to. -/
structure PairRules {ω : Type} (Later : ω → ω → Prop) (Good : Formatter → Prop)
    (Knows : ω → Descriptor → Prop)
    (Look : ∀ {α : Type}, ω → DeskWork α → DeskWork α → (ω → α → α → Prop) → Prop)
    (Whole Series : ω → DeskWork Unit → DeskWork Unit → Prop) : Prop where
  leaf : ∀ {m : ω} {w : Writing Unit}, Leaf Good w → Whole m (Desk.append w) (Desk.append w)
  texts : ∀ (m : ω) (ss : List String),
    Series m (Desk.append (Writing.texts ss)) (Desk.append (Writing.texts ss))
  series : ∀ {m : ω} {x x' : DeskWork Unit}, Whole m x x' → Series m x x'
  seq : ∀ {m : ω} {x x' y y' : DeskWork Unit}, Series m x x' →
    (∀ m', Later m m' → Series m' y y') → Series m (x >>= fun _ => y) (x' >>= fun _ => y')
  atomic : ∀ {m : ω} {x x' : DeskWork Unit}, Series m x x' →
    Whole m (Desk.atomic x) (Desk.atomic x')
  look : ∀ {α : Type} {m : ω} {x x' : DeskWork α} {P : ω → α → α → Prop}
    {k k' : α → DeskWork Unit}, Look m x x' P →
    (∀ m' a a', Later m m' → P m' a a' → Whole m' (k a) (k' a')) →
    Whole m (x >>= k) (x' >>= k')
  lookSeries : ∀ {α : Type} {m : ω} {x x' : DeskWork α} {P : ω → α → α → Prop}
    {k k' : α → DeskWork Unit}, Look m x x' P →
    (∀ m' a a', Later m m' → P m' a a' → Series m' (k a) (k' a')) →
    Series m (x >>= k) (x' >>= k')
  cast : ∀ m v t, Look m (Desk.cast? v t) (Desk.cast? v t) fun _ o o' => o' = o
  nameOf : ∀ m e n, Look m (Desk.nameOf e n) (Desk.nameOf e n) fun _ s s' => s' = s
  isHomeless : ∀ m, Look m Desk.isHomeless Desk.isHomeless fun _ gone gone' => gone' = gone
  formatterFor : ∀ {m : ω} {t : Descriptor}, Knows m t →
    Look m (Desk.formatterFor t) (Desk.formatterFor t) fun _ o o' =>
      Option.Rel (Handle.Shares Good) o o'
  typed : ∀ m v, Look m (Desk.typed v) (Desk.typed v) fun m' t t' => t' = t ∧ Knows m' t
  nullable : ∀ {m : ω} {t content : Descriptor}, Knows m t → t.nullable = some content →
    Knows m content
  knowsLater : ∀ {m m' : ω} {t : Descriptor}, Knows m t → Later m m' → Knows m' t

namespace PairRules

variable {ω : Type} {Later : ω → ω → Prop} {Good : Formatter → Prop} {Knows : ω → Descriptor → Prop}
  {Look : ∀ {α : Type}, ω → DeskWork α → DeskWork α → (ω → α → α → Prop) → Prop}
  {Whole Series : ω → DeskWork Unit → DeskWork Unit → Prop} {m : ω}

theorem braced (h : PairRules Later Good Knows Look Whole Series) (s : String) :
    Whole m (Desk.append (Writing.braced s)) (Desk.append (Writing.braced s)) :=
  h.leaf (.braced s)

theorem null (h : PairRules Later Good Knows Look Whole Series) :
    Whole m (Desk.append Writing.null) (Desk.append Writing.null) := h.leaf (.text "null")

theorem plain (h : PairRules Later Good Knows Look Whole Series) (v : TypedValue) :
    Whole m (Desk.append v.writePlain) (Desk.append v.writePlain) := by
  unfold TypedValue.writePlain
  split
  · split
    · split
      · exact h.leaf (.text _)
      · exact h.braced _
    · exact h.braced _
  · exact h.braced _

mutual

/-- **The works of a formatter at two desks are whole together**, whoever a value is left to
in the end. -/
theorem writeValue (h : PairRules Later Good Knows Look Whole Series) (m : ω) (f : Formatter)
    (v : TypedValue) (hf : Good f) (hv : Knows m v.type) :
    Whole m (f.writeValue v) (f.writeValue v) := by
  unfold Formatter.writeValue
  match f, hf with
  | .direct t f, hf =>
      refine h.look (h.cast m v t) fun m' o o' _ hsame => ?_
      subst hsame
      cases o' with
      | some view => exact h.leaf (.view hf view)
      | none => exact h.braced _
  | .general (.custom k writing), hf => exact h.leaf (.custom hf v)
  | .general (.enumeration shape), hf =>
      dsimp only
      split
      · exact h.braced _
      · next n _ =>
          refine h.look (h.nameOf m shape n) fun m' s s' _ hsame => ?_
          subst hsame
          exact h.leaf (.text _)
  | .general .fallback, hf =>
      dsimp only
      split
      · refine h.look (h.formatterFor hv) fun m' o o' hm' ho => ?_
        cases ho with
        | none => exact h.plain v
        | @some g g' hg =>
            have hkind : g'.kind = g.kind := congrArg Formatter.kind hg.formatter
            dsimp only
            rw [hkind, hg.formatter]
            by_cases hdefault : g.kind = .default
            · rw [if_pos hdefault]
              exact h.plain v
            · rw [if_neg hdefault]
              split
              · next hlower =>
                  exact writeValue h m' g.formatter v hg.good (h.knowsLater hv hm')
              · exact h.braced _
      · exact h.plain v
  | .general .dynamic, hf =>
      refine h.look (h.formatterFor hv) fun m' o o' hm' ho => ?_
      cases ho with
      | none => exact h.braced _
      | @some g g' hg =>
          dsimp only
          rw [hg.formatter]
          split
          · next hlower => exact writeValue h m' g.formatter v hg.good (h.knowsLater hv hm')
          · exact h.braced _
  | .general (.nullable inner), hf =>
      dsimp only
      split
      · exact h.braced _
      · next content hcontent =>
          split
          · exact h.null
          · next t _ =>
              split
              · exact h.null
              · next w hpart =>
                  have hc := h.nullable hv hcontent
                  refine h.look (h.formatterFor hc) fun m' o o' hm' ho => ?_
                  cases ho with
                  | @some g g' hg =>
                      dsimp only
                      rw [hg.formatter]
                      exact writeValue h m' g.formatter ⟨w, content⟩ hg.good
                        (h.knowsLater hc hm')
                  | none => exact h.braced _
  | .general .anonymous, hf =>
      refine h.look (h.isHomeless m) fun m' gone gone' _ hsame => ?_
      subst hsame
      split
      · exact h.braced _
      · refine h.atomic ?_
        exact h.seq (h.series (h.leaf (.text _))) fun m'' _ =>
          writeProperties h m'' v v.type.facts.properties true
termination_by (v.value.weight, f.rank, 0)
decreasing_by
  · exact Prod.Lex.right _ (Prod.Lex.left _ _ (by assumption))
  · exact Prod.Lex.right _ (Prod.Lex.left _ _ (by assumption))
  · exact Prod.Lex.left _ _ (Value.weight_unwrap?_lt (by assumption))
  · exact Prod.Lex.right _ (Prod.Lex.left _ _ (by decide))

/-- Writing properties at two desks is work in a series. -/
theorem writeProperties (h : PairRules Later Good Knows Look Whole Series) (m : ω)
    (v : TypedValue) (ps : List Property) (first : Bool) :
    Series m (Formatter.writeProperties v ps first) (Formatter.writeProperties v ps first) := by
  unfold Formatter.writeProperties
  match ps with
  | [] =>
      apply h.series
      cases first with
      | true => exact h.leaf (.units _)
      | false => exact h.leaf (.text _)
  | p :: rest =>
      dsimp only
      split
      · exact writeProperties h m v rest first
      · next w hpart =>
          have hrest (m' : ω) := writeProperties h m' v rest false
          refine h.seq (h.texts m _) fun m₁ _ => ?_
          refine h.lookSeries (h.typed m₁ w) fun m₂ t t' _ ht => ?_
          obtain ⟨rfl, ht⟩ := ht
          refine h.lookSeries (h.formatterFor ht) fun m₃ o o' hm₃ ho => ?_
          cases ho with
          | none => exact h.seq (h.series (h.braced _)) fun m₄ _ => hrest m₄
          | @some g g' hg =>
              have hpart := writeValue h m₃ g.formatter ⟨w, _⟩ hg.good (h.knowsLater ht hm₃)
              dsimp only
              rw [hg.formatter]
              exact h.seq (h.series hpart) fun m₄ _ => hrest m₄
termination_by (v.value.weight, 0, ps.length)
decreasing_by
  · exact Prod.Lex.right _ (Prod.Lex.right _ (Nat.lt_succ_self _))
  · exact Prod.Lex.right _ (Prod.Lex.right _ (Nat.lt_succ_self _))
  · exact Prod.Lex.left _ _ (Property.weight_read?_lt (by assumption))

end

end PairRules

/-! ## §3. Rules for one desk. -/

/-- Properties of works that are handed on from parts to wholes.

A work is done at a moment, and the rest of the work at a later one.  The good formatters are
those that look-ups find for types that are known at the moment.  `Look m x P` says that `x`
only looks something up, and that `P` holds of what it finds and of the moment it leads to. -/
structure Rules {ω : Type} (Later : ω → ω → Prop) (Good : Formatter → Prop)
    (Knows : ω → Descriptor → Prop)
    (Look : ∀ {α : Type}, ω → DeskWork α → (ω → α → Prop) → Prop)
    (Whole Series : ω → DeskWork Unit → Prop) : Prop where
  leaf : ∀ {m : ω} {w : Writing Unit}, Leaf Good w → Whole m (Desk.append w)
  texts : ∀ (m : ω) (ss : List String), Series m (Desk.append (Writing.texts ss))
  series : ∀ {m : ω} {x : DeskWork Unit}, Whole m x → Series m x
  seq : ∀ {m : ω} {x y : DeskWork Unit}, Series m x → (∀ m', Later m m' → Series m' y) →
    Series m (x >>= fun _ => y)
  atomic : ∀ {m : ω} {x : DeskWork Unit}, Series m x → Whole m (Desk.atomic x)
  look : ∀ {α : Type} {m : ω} {x : DeskWork α} {P : ω → α → Prop} {k : α → DeskWork Unit},
    Look m x P → (∀ m' a, Later m m' → P m' a → Whole m' (k a)) → Whole m (x >>= k)
  lookSeries : ∀ {α : Type} {m : ω} {x : DeskWork α} {P : ω → α → Prop} {k : α → DeskWork Unit},
    Look m x P → (∀ m' a, Later m m' → P m' a → Series m' (k a)) → Series m (x >>= k)
  cast : ∀ m v t, Look m (Desk.cast? v t) fun _ _ => True
  nameOf : ∀ m e n, Look m (Desk.nameOf e n) fun _ _ => True
  isHomeless : ∀ m, Look m Desk.isHomeless fun _ _ => True
  formatterFor : ∀ {m : ω} {t : Descriptor}, Knows m t →
    Look m (Desk.formatterFor t) fun _ o => ∀ h, o = some h → Good h.formatter
  typed : ∀ m v, Look m (Desk.typed v) Knows
  nullable : ∀ {m : ω} {t content : Descriptor}, Knows m t → t.nullable = some content →
    Knows m content
  knowsLater : ∀ {m m' : ω} {t : Descriptor}, Knows m t → Later m m' → Knows m' t

namespace Rules

variable {ω : Type} {Later : ω → ω → Prop} {Good : Formatter → Prop} {Knows : ω → Descriptor → Prop}
  {Look : ∀ {α : Type}, ω → DeskWork α → (ω → α → Prop) → Prop}
  {Whole Series : ω → DeskWork Unit → Prop} {m : ω}

/-- Rules for one desk are rules for two, of which the second one is not looked at. -/
theorem pairs (h : Rules Later Good Knows Look Whole Series) :
    PairRules Later Good Knows
      (fun {α} m x x' P => x' = x ∧ ∃ Q : ω → α → Prop, Look m x Q ∧ ∀ m a, Q m a → P m a a)
      (fun m x _ => Whole m x) (fun m x _ => Series m x) where
  leaf := h.leaf
  texts := h.texts
  series := h.series
  seq := h.seq
  atomic := h.atomic
  look := fun ⟨_, _, hx, hsub⟩ hk => h.look hx fun m' a hm' ha => hk m' a a hm' (hsub m' a ha)
  lookSeries := fun ⟨_, _, hx, hsub⟩ hk =>
    h.lookSeries hx fun m' a hm' ha => hk m' a a hm' (hsub m' a ha)
  cast m v t := ⟨rfl, _, h.cast m v t, fun _ _ _ => rfl⟩
  nameOf m e n := ⟨rfl, _, h.nameOf m e n, fun _ _ _ => rfl⟩
  isHomeless m := ⟨rfl, _, h.isHomeless m, fun _ _ _ => rfl⟩
  formatterFor ht := by
    refine ⟨rfl, _, h.formatterFor ht, fun _ o ho => ?_⟩
    cases o with
    | none => exact .none
    | some g => exact .some ⟨rfl, ho g rfl⟩
  typed m v := ⟨rfl, _, h.typed m v, fun _ _ ht => ⟨rfl, ht⟩⟩
  nullable := h.nullable
  knowsLater := h.knowsLater

/-- **Writing a value is whole work**, whoever it is left to in the end. -/
theorem writeValue (h : Rules Later Good Knows Look Whole Series) (m : ω) (f : Formatter)
    (v : TypedValue) (hf : Good f) (hv : Knows m v.type) : Whole m (f.writeValue v) :=
  h.pairs.writeValue m f v hf hv

end Rules

/-! ## §4. Work as a writing of the builder. -/

namespace Desk

/-- The work is a writing of the builder that `P` holds of; where it is not stopped, what it
makes of the rest of the desk does not depend on the builder. -/
def AmountsTo (I : Desk → Prop) (P : Writing Unit → Prop) (x : DeskWork Unit) : Prop :=
  ∀ d : Desk, I d → P (x.beside d) ∧ ∃ d' : Desk, I d' ∧
    ∀ b, (x (d.onto b)).1 = .ok () → (x (d.onto b)).2 = d'.onto (x (d.onto b)).2.builder

/-- The work looks something up, whatever the builder. -/
def LooksUp (I : Desk → Prop) {α : Type} (x : DeskWork α) (P : α → Prop) : Prop :=
  ∀ d : Desk, I d → ∃ (a : α) (d' : Desk), P a ∧ I d' ∧ ∀ b, x (d.onto b) = (.ok a, d'.onto b)

variable {I : Desk → Prop} {P P' Q : Writing Unit → Prop} {x y : DeskWork Unit}

theorem AmountsTo.append {w : Writing Unit} (h : P w) : AmountsTo I P (Desk.append w) :=
  fun d hd => ⟨h, d, hd, fun _ _ => rfl⟩

theorem AmountsTo.imp (h : AmountsTo I P x) (hPQ : ∀ {w}, P w → Q w) : AmountsTo I Q x :=
  fun d hd => ⟨hPQ (h d hd).1, (h d hd).2⟩

/-- Work after other work is the one writing after the other. -/
theorem AmountsTo.seq (h : AmountsTo I P x) (h' : AmountsTo I P' y)
    (hseq : ∀ {w w'}, P w → P' w' → Q (w >>= fun _ => w')) :
    AmountsTo I Q (x >>= fun _ => y) := by
  intro d hd
  obtain ⟨hw, d₁, hd₁, hrest⟩ := h d hd
  obtain ⟨hw', d₂, hd₂, hrest'⟩ := h' d₁ hd₁
  have hbeside : DeskWork.beside (x >>= fun _ => y) d = x.beside d >>= fun _ => y.beside d₁ := by
    funext b
    have hb := hrest b
    show (((x >>= fun _ => y) (d.onto b)).1, ((x >>= fun _ => y) (d.onto b)).2.builder) =
      (ExceptT.bindCont (fun _ => y.beside d₁) (x.beside d b).1) (x.beside d b).2
    rw [DeskWork.beside]
    cases hx : x (d.onto b) with
    | mk r after =>
    rw [hx] at hb
    cases r with
    | error e => rw [run_bind_error hx]; rfl
    | ok u =>
        have hafter : after = d₁.onto after.builder := hb rfl
        rw [run_bind_ok hx, hafter]
        rfl
  refine ⟨hbeside ▸ hseq hw hw', d₂, hd₂, fun b hok => ?_⟩
  have hb := hrest b
  cases hx : x (d.onto b) with
  | mk r after =>
  rw [hx] at hb
  cases r with
  | error e => rw [run_bind_error hx] at hok; cases hok
  | ok u =>
      have hafter : after = d₁.onto after.builder := hb rfl
      rw [run_bind_ok hx, hafter] at hok ⊢
      exact hrest' _ hok

/-- Work that is taken back together is a writing that is. -/
theorem AmountsTo.atomic (h : AmountsTo I P x)
    (hatomic : ∀ {w}, P w → Q (Writing.atomic w)) : AmountsTo I Q (Desk.atomic x) := by
  intro d hd
  obtain ⟨hw, d', hd', hrest⟩ := h d hd
  refine ⟨hatomic hw, d', hd', fun b hok => ?_⟩
  have hafter := hrest b hok
  show (x (d.onto b)).2.onto _ = _
  rw [hafter]
  rfl

/-- Work after something was looked up is the writing that then is decided. -/
theorem LooksUp.amountsTo {α : Type} {x : DeskWork α} {F : α → Prop} {k : α → DeskWork Unit}
    (h : LooksUp I x F) (hk : ∀ a, F a → AmountsTo I P (k a)) : AmountsTo I P (x >>= k) := by
  intro d hd
  obtain ⟨a, d₁, ha, hd₁, hrun⟩ := h d hd
  obtain ⟨hw, d₂, hd₂, hrest⟩ := hk a ha d₁ hd₁
  have hsame (b : Builder) : (x >>= k) (d.onto b) = k a (d₁.onto b) := run_bind_ok (hrun b)
  have hbeside : DeskWork.beside (x >>= k) d = (k a).beside d₁ := DeskWork.beside_bind hrun
  refine ⟨hbeside ▸ hw, d₂, hd₂, fun b hok => ?_⟩
  rw [hsame] at hok ⊢
  exact hrest b hok

/-- A repository that `J` holds of finds what `P` holds of, and so does one that is gone. -/
theorem looksUp_formatterFor {J : Option Repository → Prop} {P : Option Handle → Prop}
    (hgone : P none)
    (hthere : ∀ r t, J (some r) → P (some (r.getRuntime t).1) ∧ J (some (r.getRuntime t).2))
    (t : Descriptor) : LooksUp (fun d => J d.home) (formatterFor t) P := by
  intro d hd
  cases hhome : d.home with
  | none => exact ⟨none, d, hgone, hd, fun b => formatterFor_gone (d := d.onto b) hhome t⟩
  | some r =>
      rw [hhome] at hd
      obtain ⟨hP, hleft⟩ := hthere r t hd
      exact ⟨some (r.getRuntime t).1, { d with home := some (r.getRuntime t).2 }, hP, hleft,
        fun b => formatterFor_there (d := d.onto b) hhome t⟩

end Desk

/-- Properties of writings that are handed on from parts to wholes. -/
structure WritingRules (Good : Formatter → Prop) (Whole Series : Writing Unit → Prop) : Prop where
  leaf : ∀ {w : Writing Unit}, Leaf Good w → Whole w
  texts : ∀ ss : List String, Series (Writing.texts ss)
  series : ∀ {w : Writing Unit}, Whole w → Series w
  seq : ∀ {w w' : Writing Unit}, Series w → Series w' → Series (w >>= fun _ => w')
  atomic : ∀ {w : Writing Unit}, Series w → Whole (Writing.atomic w)

/-- **Rules for writings are rules for work**, where repositories find good formatters. -/
theorem WritingRules.rules {Good : Formatter → Prop} {Whole Series : Writing Unit → Prop}
    (h : WritingRules Good Whole Series) {J : Option Repository → Prop}
    (hJ : ∀ r t, J (some r) → Good (r.getRuntime t).1.formatter ∧ J (some (r.getRuntime t).2)) :
    Rules (fun _ _ : Unit => True) Good (fun _ _ => True)
      (fun _ x P => Desk.LooksUp (fun d => J d.home) x (P ()))
      (fun _ => Desk.AmountsTo (fun d => J d.home) Whole)
      (fun _ => Desk.AmountsTo (fun d => J d.home) Series) where
  leaf hw := .append (h.leaf hw)
  texts _ ss := .append (h.texts ss)
  series hx := hx.imp h.series
  seq hx hy := hx.seq (hy () trivial) h.seq
  atomic hx := hx.atomic h.atomic
  look hx hk := hx.amountsTo fun a ha => hk () a trivial ha
  lookSeries hx hk := hx.amountsTo fun a ha => hk () a trivial ha
  cast _ v t := fun d hd => ⟨d.catalog.cast? v t, d, trivial, hd, fun _ => rfl⟩
  nameOf _ e n := fun d hd =>
    ⟨(d.names.nameOf e n).1, { d with names := (d.names.nameOf e n).2 }, trivial, hd, fun _ => rfl⟩
  isHomeless _ := fun d hd => ⟨d.home.isNone, d, trivial, hd, fun _ => rfl⟩
  formatterFor _ := Desk.looksUp_formatterFor nofun
    (fun r t hr => ⟨fun _ hg => Option.some.inj hg ▸ (hJ r t hr).1, (hJ r t hr).2⟩) _
  typed _ v := fun d hd => ⟨(d.catalog.runtimeType v).1,
    { d with catalog := (d.catalog.runtimeType v).2 }, trivial, hd, fun _ => rfl⟩
  nullable _ _ := trivial
  knowsLater _ _ := trivial

/-! ## §5. Work and the repository. -/

namespace Desk

/-- The work leaves a repository that `J` holds of, if it finds one. -/
def KeepsHome (J : Option Repository → Prop) (x : DeskWork Unit) : Prop :=
  ∀ d : Desk, J d.home → J (x d).2.home

/-- The work finds what `P` holds of, and leaves such a repository. -/
def FindsHome (J : Option Repository → Prop) {α : Type} (x : DeskWork α) (P : α → Prop) : Prop :=
  ∀ d : Desk, J d.home → ∃ (a : α) (d' : Desk), x d = (.ok a, d') ∧ P a ∧ J d'.home

variable {J : Option Repository → Prop}

theorem KeepsHome.seq {x y : DeskWork Unit} (h : KeepsHome J x) (h' : KeepsHome J y) :
    KeepsHome J (x >>= fun _ => y) := by
  intro d hd
  have hx := h d hd
  cases hrun : x d with
  | mk r after =>
  rw [hrun] at hx
  cases r with
  | error e => rw [run_bind_error hrun]; exact hx
  | ok u => rw [run_bind_ok hrun]; exact h' after hx

theorem FindsHome.keepsHome {α : Type} {x : DeskWork α} {P : α → Prop} {k : α → DeskWork Unit}
    (h : FindsHome J x P) (hk : ∀ a, P a → KeepsHome J (k a)) : KeepsHome J (x >>= k) := by
  intro d hd
  obtain ⟨a, d', hrun, ha, hleft⟩ := h d hd
  rw [run_bind_ok hrun]
  exact hk a ha d' hleft

theorem findsHome_formatterFor (hJ : ∀ r t, J (some r) → J (some (r.getRuntime t).2))
    (t : Descriptor) : FindsHome J (formatterFor t) fun o => ∀ h, o = some h → True := by
  intro d hd
  cases hhome : d.home with
  | none => exact ⟨none, d, formatterFor_gone hhome t, fun _ _ => trivial, hd⟩
  | some r =>
      rw [hhome] at hd
      exact ⟨some (r.getRuntime t).1, { d with home := some (r.getRuntime t).2 },
        formatterFor_there hhome t, fun _ _ => trivial, hJ r t hd⟩

/-- **Writing keeps of a repository what look-ups for values keep**, whatever is appended, and
also where it is stopped. -/
theorem homeRules (hJ : ∀ r t, J (some r) → J (some (r.getRuntime t).2)) :
    Rules (fun _ _ : Unit => True) (fun _ => True) (fun _ _ => True)
      (fun _ x P => FindsHome J x (P ())) (fun _ => KeepsHome J) (fun _ => KeepsHome J) where
  leaf _ := fun _ hd => hd
  texts _ _ := fun _ hd => hd
  series h := h
  seq h h' := h.seq (h' () trivial)
  atomic h := h
  look h hk := h.keepsHome fun a ha => hk () a trivial ha
  lookSeries h hk := h.keepsHome fun a ha => hk () a trivial ha
  cast _ _ _ := fun d hd => ⟨_, d, rfl, trivial, hd⟩
  nameOf _ _ _ := fun _ hd => ⟨_, _, rfl, trivial, hd⟩
  isHomeless _ := fun d hd => ⟨_, d, rfl, trivial, hd⟩
  formatterFor _ := findsHome_formatterFor hJ _
  typed _ _ := fun _ hd => ⟨_, _, rfl, trivial, hd⟩
  nullable _ _ := trivial
  knowsLater _ _ := trivial

end Desk

theorem Formatter.keepsHome {J : Option Repository → Prop}
    (hJ : ∀ r t, J (some r) → J (some (r.getRuntime t).2)) (f : Formatter)
    (v : Option TypedValue) : Desk.KeepsHome J (f.write v) := by
  cases v with
  | none => exact fun _ hd => hd
  | some v => exact (Desk.homeRules hJ).writeValue () f v trivial trivial

theorem StaticFormatter.keepsHome {J : Option Repository → Prop}
    (hJ : ∀ r t, J (some r) → J (some (r.getRuntime t).2)) (f : StaticFormatter)
    (v : Option View) : Desk.KeepsHome J (f.write v) := by
  match f, v with
  | .exact f, v => exact fun _ hd => hd
  | .converting f, none => exact fun _ hd => hd
  | .converting f, some v =>
      exact ((Desk.homeRules hJ).typed () v.value).keepsHome fun t _ =>
        f.keepsHome hJ (some ⟨v.value, t⟩)

end ValueText
