/-
  ValueText.Proofs.Repository.Agreement — both ways to the formatter of a value agree.

  A value can be written with the formatter for its host type, or with the formatter for
  values of its own type.  The two are remembered in different slots, filled at different
  moments, and wrapped in different ways.  If no constructor fails they write the same,
  unless a formatter says that it leaves values to the formatters of their own types and
  then does not.

      Alike      repositories, and desks, that differ only in what they remember
      Together   work that does the same at desks that are alike

  Main results:

    • `togetherRules`  writing with any formatter is such work;
    • `Setting.writeStatic_eq_writeRuntime`  both ways agree, at every moment of every
                       history.
-/
import ValueText.Proofs.Repository.Settled
import ValueText.Proofs.Repository.Applying
import ValueText.Proofs.Repository.Delegation

namespace ValueText

open Catalog (Known Grows Orderly Describes)
open Descriptor (Family Plain)
open Factory (InSync SameRegistrations)
open Repository (runtimeFallback staticFallback runtimeHandle OptionalsSucceed Found Reliable)

/-! ## §1. The formatter that an answer gives to values. -/

namespace Repository

theorem runtimeHandle_of_kind {h : Handle} {d : Descriptor} (hk : h.kind ≠ .dynamic) :
    runtimeHandle d h = h := by
  unfold runtimeHandle
  split
  · next he => exact absurd he hk
  · rfl
  · rfl

theorem runtimeHandle_staticFallback (d : Descriptor) :
    runtimeHandle d (staticFallback d) = runtimeFallback d := by
  unfold staticFallback
  split
  · rfl
  · exact runtimeHandle_of_kind (kind_runtimeFallback d)

variable {K : Descriptor → Prop} {X : Descriptor}

/-- **Answers that are in sync give the same formatter to values.** -/
theorem runtimeHandle_eq {f : Factory Handle Slot} {a b : Resolved Handle} (ha : InSync f X a)
    (hb : InSync f X b) (hfrom : (fallbacks K).Answer X a) (hfrom' : (fallbacks K).Answer X b) :
    runtimeHandle X a.extension = runtimeHandle X b.extension := by
  have hfallback {r : Resolved Handle} (hr : (fallbacks K).Answer X r) (hsource : r.source = none) :
      runtimeHandle X r.extension = runtimeFallback X := by
    cases hr with
    | registered => cases hsource
    | made => cases hsource
    | fallback h =>
        rcases h with rfl | rfl
        · exact runtimeHandle_staticFallback X
        · exact runtimeHandle_of_kind (kind_runtimeFallback X)
  obtain ⟨hsource, hextension⟩ := ha.unique hb
  cases hs : a.source with
  | none => rw [hfallback hfrom hs, hfallback hfrom' (hsource.symm.trans hs)]
  | some c => rw [hextension c hs]

end Repository

/-! ## §2. Catalogues that types are added to. -/

namespace Catalog

/-- Only interfaces are implemented, and the constructor of the optional types does not fail. -/
structure Regular (c : Catalog) : Prop where
  orderly : Orderly c
  interfaces : c.ImplementsInterfaces
  optionals : OptionalsSucceed c.Known

variable {c : Catalog}

theorem Regular.plain (h : Regular c) : Plain c.Known := h.orderly.plain h.interfaces

/-- A type that becomes known is no instance of a definition. -/
theorem Regular.typeOf (h : Regular c) (t : HostType) : Regular (c.typeOf t).2 := by
  refine ⟨h.orderly.typeOf t, h.interfaces.typeOf t, fun d g hd hg hkey => ?_⟩
  unfold Catalog.typeOf at hd
  split at hd
  · exact h.optionals d g hd hg hkey
  · rcases known_insert hd with rfl | hd
    · cases hg
    · exact h.optionals d g hd hg hkey

theorem Regular.runtimeType (h : Regular c) (v : Value) : Regular (c.runtimeType v).2 := by
  have hblank := h.typeOf v.type
  have hsame : ∀ d, Known (c.runtimeType v).2 d ↔ Known (c.typeOf v.type).2 d := by
    intro d
    cases v <;> exact Iff.rfl
  exact ⟨(h.orderly.runtimeType v).1, h.interfaces.runtimeType v,
    fun d g hd => hblank.optionals d g ((hsame d).mp hd)⟩

/-- The catalogue may be the one of a later moment. -/
structure Later (c c' : Catalog) : Prop where
  regular : Regular c'
  grows : Grows c c'

theorem Later.trans {c₁ c₂ c₃ : Catalog} (h : Later c₁ c₂) (h' : Later c₂ c₃) : Later c₁ c₃ :=
  ⟨h'.regular, h.grows.trans h'.grows⟩

theorem Regular.later (h : Regular c) : Later c c := ⟨h, .refl c⟩

end Catalog

open Catalog (Regular Later)

/-! ## §3. Repositories and desks that are alike. -/

section

variable [DecidableEq Slot] {last : Catalog}

/-- The repositories have the same registrations, and both are settled. -/
structure Repository.Alike (K : Descriptor → Prop) (r r' : Repository) : Prop where
  left : r.Settled K
  right : r'.Settled K
  same : SameRegistrations r.factory r'.factory

theorem Repository.Alike.symm {K : Descriptor → Prop} {r r' : Repository} (h : Alike K r r') :
    Alike K r' r := ⟨h.right, h.left, h.same.symm⟩

theorem Repository.Alike.trans {K : Descriptor → Prop} {r₁ r₂ r₃ : Repository}
    (h : Alike K r₁ r₂) (h' : Alike K r₂ r₃) : Alike K r₁ r₃ :=
  ⟨h.left, h'.right, h.same.trans h'.same⟩

/-- **Repositories that are alike find the same formatters**, and go on being alike. -/
theorem Repository.Alike.getRuntime {r r' : Repository} (hlast : Regular last)
    (h : Alike last.Known r r') {d : Descriptor} (hd : Known last d) :
    (r'.getRuntime d).1 = (r.getRuntime d).1 ∧
      Alike last.Known (r.getRuntime d).2 (r'.getRuntime d).2 := by
  have hK := hlast.orderly.family
  obtain ⟨a, hfound, hgives⟩ := h.left.getRuntime hK hlast.plain hd
  obtain ⟨a', hfound', hgives'⟩ := h.right.getRuntime hK hlast.plain hd
  -- Both answers are what the registrations say, and those are the same.
  have hsync := hfound.inSync.same (Factory.sameAnswer_of_sameRegistrations hK hd h.left.sound
    h.right.sound h.left.unfailing h.same)
  refine ⟨?_, hfound.settled, hfound'.settled, (hfound.same.symm.trans h.same).trans hfound'.same⟩
  rw [hgives, hgives', runtimeHandle_eq hsync hfound'.inSync hfound.origin hfound'.origin]

/-- A repository that has looked something up is alike to what it was. -/
theorem Repository.Settled.alike_getRuntime {r : Repository} (hlast : Regular last)
    (h : r.Settled last.Known) {d : Descriptor} (hd : Known last d) :
    Alike last.Known r (r.getRuntime d).2 := by
  obtain ⟨a, hfound, -⟩ := h.getRuntime hlast.orderly.family hlast.plain hd
  exact ⟨h, hfound.settled, hfound.same⟩

theorem Repository.Settled.alike_get {r : Repository} (hlast : Regular last)
    (h : r.Settled last.Known) {c : Catalog} {t : HostType} (hd : Known last (c.typeOf t).1)
    (hkey : (c.typeOf t).1.key = .host t) : Alike last.Known r (r.get c t).2.1 := by
  obtain ⟨a, hfound, -⟩ := h.get hlast.orderly.family hlast.plain hd hkey
  exact ⟨h, hfound.settled, hfound.same⟩

namespace Desk

/-- The desks differ only in what their repositories remember. -/
structure Alike (K : Descriptor → Prop) (d e : Desk) : Prop where
  builder : e.builder = d.builder
  catalog : e.catalog = d.catalog
  names : e.names = d.names
  homes : ∃ r r', d.home = some r ∧ e.home = some r' ∧ Repository.Alike K r r'

/-- Work at the catalogue that does the same at desks that are alike, and finds something that
`P` holds of.  The desks need to be alike for all that is known in the end. -/
def Together {α : Type} (c : Catalog) (x : DeskWork α) (P : Catalog → α → Prop) : Prop :=
  ∀ d : Desk, d.catalog = c → Regular c →
    Later c (x d).2.catalog ∧ (∀ a, (x d).1 = .ok a → P (x d).2.catalog a) ∧
    ∀ last, Later (x d).2.catalog last → ∀ e, Alike last.Known d e →
      (x e).1 = (x d).1 ∧ Alike last.Known (x d).2 (x e).2

theorem Together.bind {α : Type} {c : Catalog} {x : DeskWork α} {k : α → DeskWork Unit}
    {P : Catalog → α → Prop} (h : Together c x P)
    (h' : ∀ c' a, Later c c' → P c' a → Together c' (k a) fun _ _ => True) :
    Together c (x >>= k) fun _ _ => True := by
  intro d hd hc
  obtain ⟨hlater, hfound, halike⟩ := h d hd hc
  -- Both desks stop here with one error, or both go on from desks that are alike.
  cases hrun : x d with
  | mk result after =>
  rw [hrun] at hlater hfound halike
  cases result with
  | error err =>
      rw [Desk.run_bind_error hrun]
      refine ⟨hlater, fun _ _ => trivial, fun last hlast e he => ?_⟩
      obtain ⟨hresult, hafter⟩ := halike last hlast e he
      have hrun' : x e = (.error err, (x e).2) := Prod.ext hresult rfl
      rw [Desk.run_bind_error hrun']
      exact ⟨rfl, hafter⟩
  | ok a =>
      obtain ⟨hlater', -, halike'⟩ :=
        h' after.catalog a hlater (hfound a rfl) after rfl hlater.regular
      rw [Desk.run_bind_ok hrun]
      refine ⟨hlater.trans hlater', fun _ _ => trivial, fun last hlast e he => ?_⟩
      obtain ⟨hresult, hafter⟩ := halike last (hlater'.trans hlast) e he
      have hrun' : x e = (.ok a, (x e).2) := Prod.ext hresult rfl
      rw [Desk.run_bind_ok hrun']
      exact halike' last hlast _ hafter

theorem together_append (c : Catalog) (w : Writing Unit) :
    Together c (append w) fun _ _ => True := by
  intro d hd hc
  subst hd
  refine ⟨hc.later, fun _ _ => trivial, fun last hlast e he => ?_⟩
  obtain ⟨r, r', hr, hr', halike⟩ := he.homes
  unfold append
  rw [he.builder]
  exact ⟨rfl, rfl, he.catalog, he.names, r, r', hr, hr', halike⟩

theorem Together.atomic {c : Catalog} {x : DeskWork Unit}
    (h : Together c x fun _ _ => True) : Together c (Desk.atomic x) fun _ _ => True := by
  intro d hd hc
  obtain ⟨hlater, -, halike⟩ := h d hd hc
  refine ⟨hlater, fun _ _ => trivial, fun last hlast e he => ?_⟩
  obtain ⟨hresult, hafter⟩ := halike last hlast e he
  refine ⟨hresult, ?_, hafter.catalog, hafter.names, hafter.homes⟩
  -- The appends are taken back at both desks or at neither.
  show Writing.settle e.builder (Writing.stopped (x e).1) (x e).2.builder =
    Writing.settle d.builder (Writing.stopped (x d).1) (x d).2.builder
  rw [he.builder, hresult, hafter.builder]

theorem together_formatterFor {c : Catalog} {t : Descriptor} (ht : Known c t) :
    Together c (formatterFor t) fun _ o => ∀ h, o = some h → True := by
  intro d hd hc
  subst hd
  have hcatalog : (formatterFor t d).2.catalog = d.catalog := by
    unfold formatterFor
    split <;> rfl
  refine ⟨hcatalog ▸ hc.later, fun _ _ _ _ => trivial, fun last hlast e he => ?_⟩
  rw [hcatalog] at hlast
  -- One repository may remember the formatter while the other one asks its factory.
  obtain ⟨r, r', hr, hr', halike⟩ := he.homes
  obtain ⟨hsame, hafter⟩ := halike.getRuntime hlast.regular (hlast.grows t ht)
  rw [formatterFor_there hr, formatterFor_there hr', hsame]
  exact ⟨rfl, he.builder, he.catalog, he.names, _, _, rfl, rfl, hafter⟩

theorem together_typed (c : Catalog) (v : Value) :
    Together c (typed v) fun c' t => Regular c' ∧ Known c' t := by
  intro d hd hc
  subst hd
  have hlater := hc.runtimeType v
  obtain ⟨-, hgrows, hdescribes⟩ := hc.orderly.runtimeType v
  refine ⟨⟨hlater, hgrows⟩, fun t ht => ?_, fun last hlast e he => ?_⟩
  · cases ht
    exact ⟨hlater, hdescribes.known⟩
  · unfold typed
    rw [he.catalog]
    exact ⟨rfl, he.builder, rfl, he.names, he.homes⟩

theorem together_nameOf (c : Catalog) (shape : EnumShape) (n : Int64) :
    Together c (nameOf shape n) fun _ _ => True := by
  intro d hd hc
  subst hd
  refine ⟨hc.later, fun _ _ => trivial, fun last hlast e he => ?_⟩
  unfold nameOf
  rw [he.names]
  exact ⟨rfl, he.builder, he.catalog, rfl, he.homes⟩

/-- Work that changes nothing and reads what is the same at both desks. -/
theorem together_read {α : Type} {c : Catalog} {x : DeskWork α} (hleft : ∀ d, (x d).2 = d)
    (hsame : ∀ K d e, Alike K d e → (x e).1 = (x d).1) : Together c x fun _ _ => True := by
  intro d hd hc
  subst hd
  rw [hleft]
  refine ⟨hc.later, fun _ _ => trivial, fun last hlast e he => ⟨hsame _ d e he, ?_⟩⟩
  rw [hleft]
  exact he

/-- **Writing does the same at desks that are alike**, whatever the formatter. -/
theorem togetherRules : Rules Later (fun _ => True) (fun c t => Regular c ∧ Known c t) Together
    (fun c x => Together c x fun _ _ => True) (fun c x => Together c x fun _ _ => True) where
  leaf _ := together_append _ _
  texts _ _ := together_append _ _
  series h := h
  seq h h' := h.bind fun c' _ hlater _ => h' c' hlater
  atomic h := h.atomic
  look h h' := h.bind h'
  lookSeries h h' := h.bind h'
  cast _ v t := together_read (fun _ => rfl) fun _ d e he => by
    show Except.ok (e.catalog.cast? v t) = Except.ok (d.catalog.cast? v t)
    rw [he.catalog]
  nameOf _ e n := together_nameOf _ e n
  isHomeless _ := together_read (fun _ => rfl) fun _ d e he => by
    obtain ⟨r, r', hr, hr', -⟩ := he.homes
    show Except.ok e.home.isNone = Except.ok d.home.isNone
    rw [hr, hr']
    rfl
  formatterFor ht := together_formatterFor ht.2
  typed _ v := together_typed _ v
  nullable hm hn := ⟨hm.1, hm.1.orderly.optional _ _ hm.2 hn⟩
  knowsLater ht hlater := ⟨hlater.regular, hlater.grows _ ht.2⟩

/-- Desks that are alike for every catalogue of a later moment show the same writing. -/
theorem beside_alike (f : Formatter) {v : TypedValue} {d e : Desk} (hd : Regular d.catalog)
    (hv : Known d.catalog v.type)
    (h : ∀ last, Later d.catalog last → ∀ b, Alike last.Known (d.onto b) (e.onto b)) :
    DeskWork.beside (f.write (some v)) e = DeskWork.beside (f.write (some v)) d := by
  funext b
  have htogether := togetherRules.writeValue d.catalog f v trivial ⟨hd, hv⟩
  obtain ⟨hlater, -, halike⟩ := htogether (d.onto b) rfl hd
  obtain ⟨hresult, hafter⟩ := halike _ hlater.regular.later (e.onto b) (h _ hlater b)
  exact Prod.ext hresult hafter.builder

end Desk

/-! ## §4. Both ways. -/

namespace Setting

/-- Writing a value with the formatter for its host type. -/
def writeStatic (s : Setting) (v : Value) : Writing Unit :=
  let (f, r, c) := s.repository.get s.catalog v.type
  DeskWork.beside (f.write (some (.plain v))) ⟨.new {}, c, some r, s.names⟩

/-- Writing a value with the formatter for values of its own type. -/
def writeRuntime (s : Setting) (v : Value) : Writing Unit :=
  let (d, c) := s.catalog.runtimeType v
  let (h, r) := s.repository.getRuntime d
  DeskWork.beside (h.formatter.write (some ⟨v, d⟩)) ⟨.new {}, c, some r, s.names⟩

end Setting

end

theorem Handle.kind_forType (h : Handle) (t : HostType) : (h.forType t).kind = h.kind := by
  unfold Handle.forType Handle.kind
  split
  · next t' f hf =>
      rw [hf]
      split
      · cases f <;> rfl
      · rfl
  · next g hg => rw [hg]; rfl

/-- A value that is left to the formatter of its own type. -/
theorem Formatter.beside_dynamic {d : Desk} {r : Repository} (hr : d.home = some r)
    (v : TypedValue) (hk : (r.getRuntime v.type).1.kind ≠ .dynamic) :
    DeskWork.beside ((Formatter.general .dynamic).write (some v)) d =
      DeskWork.beside ((r.getRuntime v.type).1.formatter.write (some v))
        { d with home := some (r.getRuntime v.type).2 } := by
  have hfound (b : Builder) : Desk.formatterFor v.type (d.onto b) =
      (.ok (some (r.getRuntime v.type).1),
        ({ d with home := some (r.getRuntime v.type).2 } : Desk).onto b) :=
    Desk.formatterFor_there (d := d.onto b) hr v.type
  rw [Formatter.write, Formatter.writeValue]
  refine (DeskWork.beside_bind hfound).trans ?_
  dsimp only
  rw [dif_pos (Formatter.rank_lt hk)]
  rfl

/-- A value that is written against its host type, or paired with its own type first. -/
theorem Handle.beside_forType [DecidableEq Slot] (h : Handle) {v : Value} {t : Descriptor}
    {d e : Desk} (hd : Regular d.catalog) (ht : Describes d.catalog t v)
    (hpaired : e.catalog.runtimeType v = (t, d.catalog))
    (halike : ∀ last, Later d.catalog last → ∀ b,
      Desk.Alike last.Known (d.onto b) (({ e with catalog := d.catalog } : Desk).onto b)) :
    DeskWork.beside ((h.forType v.type).write (some (.plain v))) e =
      DeskWork.beside (h.formatter.write (some ⟨v, t⟩)) d := by
  have hconverting : DeskWork.beside ((StaticFormatter.converting h.formatter).write
      (some (.plain v))) e = DeskWork.beside (h.formatter.write (some ⟨v, t⟩)) d := by
    rw [StaticFormatter.beside_converting, hpaired]
    exact Desk.beside_alike h.formatter hd ht.known halike
  unfold Handle.forType
  -- Only a formatter that is written against the host type itself is not wrapped.
  split
  · next t' f hf =>
      split
      · next he =>
          -- The formatter is written against just the type of the value.
          subst he
          rw [hf, Formatter.beside_direct]
          dsimp only
          rw [Catalog.cast?_self ht.own ht.key]
          rfl
      · exact hconverting
  · exact hconverting

variable {c last : Catalog} {roleName : String} {role : HostType} {pool : PoolOptions}
  {names : EnumNames} {s : Setting} {Allowed : Descriptor → Constructor Handle → Prop}

/-- **Every history settles its repository**, if no constructor fails. -/
theorem settled_reached [DecidableEq Slot] (hA : Reliable Allowed) (hc : Orderly c)
    (hs : (Setting.new roleName role c pool names).Reaches Allowed s)
    (hlast : Later s.catalog last) : s.repository.Settled last.Known := by
  have hkept := Repository.settled_kept hlast.regular.orderly.family hlast.regular.plain hA
    hlast.regular.optionals
  exact (hkept.moves_reached hc hs).keeps hlast.grows (Repository.settled_blank _ _ _)

/-- The type that a value is paired with, at a regular catalogue. -/
theorem Catalog.Regular.paired (h : Regular c) {v : Value} {d : Descriptor} {c' : Catalog}
    (hv : c.runtimeType v = (d, c')) :
    Later c c' ∧ Describes c' d v ∧ (c.typeOf v.type).1 = d := by
  have hregular := h.runtimeType v
  obtain ⟨-, hgrows, hdescribes⟩ := h.orderly.runtimeType v
  have htypeOf := c.runtimeType_fst v
  rw [hv] at hregular hgrows hdescribes htypeOf
  exact ⟨⟨hregular, hgrows⟩, hdescribes, htypeOf.symm⟩

/-- **What both look-ups find for the type of a value**, as long as all that will be known is
in `last`. -/
theorem found_reached [DecidableEq Slot] (hA : Reliable Allowed) (hc : Orderly c)
    (hs : (Setting.new roleName role c pool names).Reaches Allowed s)
    (hregular : Regular s.catalog) {v : Value} {d : Descriptor} {c' : Catalog}
    (hv : s.catalog.runtimeType v = (d, c')) (hlast : Later c' last) :
    (∃ a, Found last.Known s.repository (s.repository.get s.catalog v.type).2.1 d a ∧
      (s.repository.get s.catalog v.type).1 = a.extension.forType v.type) ∧
    ∃ b, Found last.Known s.repository (s.repository.getRuntime d).2 d b ∧
      (s.repository.getRuntime d).1 = runtimeHandle d b.extension := by
  obtain ⟨hlater, hdescribes, rfl⟩ := hregular.paired hv
  have hsettled := settled_reached hA hc hs (hlater.trans hlast)
  have hK := hlast.regular.orderly.family
  have hP := hlast.regular.plain
  have hknown := hlast.grows _ hdescribes.known
  exact ⟨hsettled.get hK hP hknown hdescribes.key, hsettled.getRuntime hK hP hknown⟩

/-- **Both ways write the same**, at any two repositories that are alike. -/
theorem Setting.beside_get [DecidableEq Slot] (hA : Reliable Allowed) (hc : Orderly c)
    (hs : (Setting.new roleName role c pool names).Reaches Allowed s)
    (hregular : Regular s.catalog) {v : Value} {d : Descriptor} {c' : Catalog}
    (hv : s.catalog.runtimeType v = (d, c'))
    (hleaves : (s.repository.get s.catalog v.type).1.kind = .dynamic →
      (s.repository.get s.catalog v.type).1 = .converting (.general .dynamic))
    {r r' : Repository}
    (hr : ∀ last, Later c' last → Repository.Alike last.Known s.repository r)
    (hr' : ∀ last, Later c' last → Repository.Alike last.Known s.repository r') :
    DeskWork.beside ((s.repository.get s.catalog v.type).1.write (some (.plain v)))
        ⟨.new {}, (s.repository.get s.catalog v.type).2.2, some r, s.names⟩ =
      DeskWork.beside ((s.repository.getRuntime d).1.formatter.write (some ⟨v, d⟩))
        ⟨.new {}, c', some r', s.names⟩ := by
  obtain ⟨hlater, hdescribes, -⟩ := hregular.paired hv
  have hpaired := s.repository.runtimeType_get s.catalog v
  rw [hv] at hpaired
  have hhomes (last : Catalog) (hlast : Later c' last) := (hr' last hlast).symm.trans (hr last hlast)
  -- Both find what is registered for the type now, or both find nothing.
  obtain ⟨⟨a, ha, hstatic⟩, ⟨b, hb, hruntime⟩⟩ :=
    found_reached hA hc hs hregular hv hlater.regular.later
  have hhandle : (s.repository.getRuntime d).1 = runtimeHandle d a.extension :=
    hruntime.trans (Repository.runtimeHandle_eq hb.inSync ha.inSync hb.origin ha.origin)
  by_cases hk : a.extension.kind = .dynamic
  case neg =>
    rw [hstatic, hhandle, Repository.runtimeHandle_of_kind hk]
    refine Handle.beside_forType _ hlater.regular hdescribes hpaired fun last hlast b => ?_
    exact ⟨rfl, rfl, rfl, _, _, rfl, rfl, hhomes last hlast⟩
  case pos =>
    -- The formatter for the host type looks for the other one when it writes.
    have hdirect := ((hr c' hlater.regular.later).getRuntime hlater.regular hdescribes.known).1
    have hkind : (r.getRuntime d).1.kind ≠ .dynamic := by
      rw [hdirect, hhandle]
      exact Repository.kind_runtimeHandle _ _
    have hleft := hleaves (by rw [hstatic, Handle.kind_forType, hk])
    rw [hleft, StaticFormatter.beside_converting]
    dsimp only
    rw [hpaired, Formatter.beside_dynamic rfl _ hkind, hdirect]
    refine Desk.beside_alike _ hlater.regular hdescribes.known fun last hlast b => ?_
    have hlooked := (hr last hlast).right.alike_getRuntime hlast.regular
      (hlast.grows d hdescribes.known)
    exact ⟨rfl, rfl, rfl, _, _, rfl, rfl, (hhomes last hlast).trans hlooked⟩

/-- **Both ways write the same.**  At every moment of every history of a repository in which no
other constructor is registered than the one of the optional types, and that does not fail, a
value is written by the formatter for its host type as by the formatter for values of its own
type, unless the former is one of the host that says that it leaves values to the formatters of
their own types. -/
theorem Setting.writeStatic_eq_writeRuntime (hc : Orderly c)
    (hs : (Setting.new roleName role c pool names).Reaches (fun _ _ => False) s)
    (hinterfaces : s.catalog.ImplementsInterfaces) (hoptionals : OptionalsSucceed s.catalog.Known)
    (v : Value) (hleaves : (s.repository.get s.catalog v.type).1.kind = .dynamic →
      (s.repository.get s.catalog v.type).1 = .converting (.general .dynamic)) :
    s.writeStatic v = s.writeRuntime v := by
  classical
  have hregular : Regular s.catalog := ⟨orderly_reached hc hs, hinterfaces, hoptionals⟩
  have hnone : Reliable fun _ _ => False := nofun
  unfold writeStatic writeRuntime
  dsimp only
  cases hv : s.catalog.runtimeType v with
  | mk d c' =>
  obtain ⟨hlater, hdescribes, rfl⟩ := hregular.paired hv
  have hsettled (last : Catalog) (hlast : Later c' last) :=
    settled_reached hnone hc hs (hlater.trans hlast)
  refine beside_get hnone hc hs hregular hv hleaves (fun last hlast => ?_) fun last hlast => ?_
  · exact (hsettled last hlast).alike_get hlast.regular (hlast.grows _ hdescribes.known)
      hdescribes.key
  · exact (hsettled last hlast).alike_getRuntime hlast.regular (hlast.grows _ hdescribes.known)

/-! ## §5. A class, and a formatter that does not leave its values. -/

/-- Whether the constructor of the optional types fails can be seen from the entries. -/
theorem optionalsSucceed_of_entries
    (h : (c.types.entries.all fun e => match e.2.definition with
      | some g => g.key ≠ Catalog.nullableDefinition.key ||
          (Repository.nullableConstructor.build e.2 e.2.genericArguments).isOk
      | none => true) = true) : OptionalsSucceed c.Known := by
  intro d g hd hg hkey
  have hentry := List.all_eq_true.mp h _ (Catalog.mem_of_find? hd)
  dsimp only at hentry
  rw [hg] at hentry
  dsimp only at hentry
  rw [decide_eq_false (not_not_intro hkey), Bool.false_or] at hentry
  cases hbuilt : Repository.nullableConstructor.build d d.genericArguments with
  | ok made => exact ⟨made, rfl⟩
  | error err =>
      rw [hbuilt] at hentry
      cases hentry

/-- The repository after the formatter for the class was asked for, and another one registered. -/
def consulted : Setting :=
  (drawing.update (drawing.repository.get drawing.catalog circle.type).2).register
    (.other "Shape") marking

theorem reaches_consulted : (Setting.new "drawing" .object shapes {} {}).Reaches
    (fun _ _ => False) consulted :=
  (Relation.ReflTransGen.single (.get drawing circle.type)).tail (.register _ _ _)

theorem writeStatic_eq_writeRuntime_circle : consulted.catalog.ImplementsInterfaces ∧
    OptionalsSucceed consulted.catalog.Known ∧
    consulted.writeStatic circle = consulted.writeRuntime circle := by
  have hinterfaces : consulted.catalog.ImplementsInterfaces :=
    Catalog.implementsInterfaces_of_entries (by decide +kernel)
  have hoptionals : OptionalsSucceed consulted.catalog.Known :=
    optionalsSucceed_of_entries (by decide +kernel)
  have hkind : (consulted.repository.get consulted.catalog circle.type).1.kind ≠ .dynamic := by
    decide +kernel
  exact ⟨hinterfaces, hoptionals, Setting.writeStatic_eq_writeRuntime orderly_shapes
    reaches_consulted hinterfaces hoptionals circle fun hk => absurd hk hkind⟩

/-- A value of a class, without a formatter of its own. -/
theorem Formatter.beside_fallback {v : TypedValue} (hv : v.type.isPlainData = false) (d : Desk) :
    DeskWork.beside ((Formatter.general .fallback).write (some v)) d = v.writePlain := by
  rw [Formatter.write, Formatter.writeValue, hv]
  rfl

/-- The fallback can be told from other formatters. -/
theorem Formatter.eq_fallback {f : Formatter}
    (hf : (match f with | .general .fallback => true | _ => false) = true) :
    f = .general .fallback := by
  split at hf
  · rfl
  · cases hf

theorem Setting.writeRuntime_of_fallback {v : Value}
    (hf : (s.repository.getRuntime (s.catalog.runtimeType v).1).1.formatter = .general .fallback)
    (hd : (s.catalog.runtimeType v).1.isPlainData = false) :
    s.writeRuntime v = TypedValue.writePlain ⟨v, (s.catalog.runtimeType v).1⟩ := by
  unfold writeRuntime
  dsimp only
  rw [hf]
  exact Formatter.beside_fallback hd _

/-- A formatter that says that it leaves its values, and writes a mark. -/
def claiming : TypedFormatter := .custom .dynamic fun _ => .texts ["D"]

/-- The repository after the formatter was registered for the class. -/
def claimed : Setting := drawing.register (.other "Circle") claiming

/-- **A formatter that says that it leaves its values, and does not, is used on one way only.** -/
theorem leaving_not_kept : ¬ ∀ (c : Catalog) (roleName : String) (role : HostType)
    (pool : PoolOptions) (names : EnumNames) (s : Setting) (v : Value), Orderly c →
    (Setting.new roleName role c pool names).Reaches (fun _ _ => False) s →
    s.catalog.ImplementsInterfaces → OptionalsSucceed s.catalog.Known →
    s.writeStatic v = s.writeRuntime v := by
  intro h
  have heq := h shapes "drawing" .object {} {} claimed circle orderly_shapes
    (Relation.ReflTransGen.single (.register drawing (.other "Circle") claiming))
    (Catalog.implementsInterfaces_of_entries (by decide +kernel))
    (optionalsSucceed_of_entries (by decide +kernel))
  -- For values of the class there is only the fallback, which writes the full name.
  have hfallback := Formatter.eq_fallback (f := (claimed.repository.getRuntime
    (claimed.catalog.runtimeType circle).1).1.formatter) (by decide +kernel)
  have hruntime := Setting.writeRuntime_of_fallback hfallback (by decide +kernel)
  have hunits := congrArg (fun w : Writing Unit => (w (.new {})).2.units) (heq.trans hruntime)
  have hother : (claimed.writeStatic circle (.new {})).2.units ≠
      (TypedValue.writePlain ⟨circle, (claimed.catalog.runtimeType circle).1⟩
        (.new {})).2.units := by decide +kernel
  exact hother hunits

end ValueText
