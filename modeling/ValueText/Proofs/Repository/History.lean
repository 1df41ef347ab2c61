/-
  ValueText.Proofs.Repository.History — what a repository goes through.

  A repository is used over a catalogue that learns more types in the meantime.  It
  changes in few ways only: by a registration, by forgetting everything, and by
  remembering what it looks up.  Everything else is made of these, formatting
  included, which looks up the formatters of the parts of a value.  So a property of
  repositories that the few ways keep is kept by every history.

  Main results:

    • `Setting.Step`, `Reaches`  the histories;
    • `Lasting.step`     a step keeps what the few ways keep, if resetting does;
    • `Lasting.reaches`  and so does every history.
-/
import Mathlib.Logic.Relation
import ValueText.Proofs.Repository.Holding
import ValueText.Proofs.Repository.Rules
import ValueText.Proofs.Types.Casting
import ValueText.Proofs.Types.Optional

namespace ValueText

open Catalog (Known Grows Orderly)

/-! ## §1. Histories. -/

/-- A repository with what its formatters share. -/
structure Setting where
  repository : Repository
  catalog : Catalog
  names : EnumNames := {}

namespace Setting

/-- A desk of the repository. -/
def desk (s : Setting) (b : Builder) : Desk := ⟨b, s.catalog, some s.repository, s.names⟩

/-- The setting after work at a desk. -/
def after (s : Setting) (d : Desk) : Setting := ⟨d.home.getD s.repository, d.catalog, d.names⟩

/-- A new repository. -/
def new (roleName : String) (role : HostType) (c : Catalog) (pool : PoolOptions)
    (names : EnumNames) : Setting :=
  let (r, c) := Repository.new roleName role c pool
  ⟨r, c, names⟩

/-- Changes the repository and the catalogue. -/
def update (s : Setting) (p : Repository × Catalog) : Setting := ⟨p.1, p.2, s.names⟩

/-- Registers a formatter that is written against a host type. -/
def register (s : Setting) (t : HostType) (f : TypedFormatter) : Setting :=
  s.update (s.repository.register s.catalog t f).2

/-- The setting after a value was formatted. -/
def format (s : Setting) (t : HostType) (v : Option View) : Setting :=
  let f := s.repository.format s.catalog s.names t v
  ⟨f.repository, f.catalog, f.names⟩

/-- One step of a history.  The constructors that may be registered are those `Allowed`. -/
inductive Step (Allowed : Descriptor → Constructor Handle → Prop) : Setting → Setting → Prop
  /-- More types become known. -/
  | learn (s : Setting) {c : Catalog} (hc : Orderly c) (hg : Grows s.catalog c) :
      Step Allowed s { s with catalog := c }
  | register (s : Setting) (t : HostType) (f : TypedFormatter) : Step Allowed s (s.register t f)
  | registerHandle (s : Setting) {target : Descriptor} (h : Known s.catalog target)
      (valueType : Descriptor) (f : Formatter) :
      Step Allowed s { s with repository := (s.repository.registerHandle target valueType f).2 }
  | registerGeneric (s : Setting) {definition : Descriptor} {k : Constructor Handle}
      (h : Allowed definition k) :
      Step Allowed s { s with repository := (s.repository.registerGeneric definition k).2 }
  | setDynamic (s : Setting) (t : HostType) :
      Step Allowed s (s.update (s.repository.setDynamic s.catalog t).2)
  | reset (s : Setting) : Step Allowed s (s.update (s.repository.reset s.catalog))
  | get (s : Setting) (t : HostType) : Step Allowed s (s.update (s.repository.get s.catalog t).2)
  | getRuntime (s : Setting) {d : Descriptor} (h : Known s.catalog d) :
      Step Allowed s { s with repository := (s.repository.getRuntime d).2 }
  | format (s : Setting) (t : HostType) (v : Option View) : Step Allowed s (s.format t v)
  /-- A formatter is used, whatever repository it is from. -/
  | write (s : Setting) (f : Formatter) {v : TypedValue} (h : Known s.catalog v.type)
      (b : Builder) : Step Allowed s (s.after ((f.writeValue v) (s.desk b)).2)

/-- The setting comes about from another one. -/
abbrev Reaches (Allowed : Descriptor → Constructor Handle → Prop) : Setting → Setting → Prop :=
  Relation.ReflTransGen (Step Allowed)

end Setting

/-- A repository that nothing was registered in. -/
def Repository.blank (roleName : String) (role : Descriptor) (pool : PoolOptions) : Repository :=
  { roleName := roleName, factory := { role := some role }, pool := .new pool }

theorem Repository.records_blank {O : Factory.Origins Handle Slot} (roleName : String)
    (role : Descriptor) (pool : PoolOptions) : (Repository.blank roleName role pool).Records O :=
  ⟨(Repository.blank roleName role pool).holds_forget.of_eq rfl rfl rfl,
    Factory.Origins.delivers_nil⟩

theorem Setting.new_eq (roleName : String) (role : HostType) (c : Catalog) (pool : PoolOptions)
    (names : EnumNames) :
    Setting.new roleName role c pool names =
      ⟨((Repository.blank roleName (c.typeOf role).1 pool).withBuiltins (c.typeOf role).2).1,
        ((Repository.blank roleName (c.typeOf role).1 pool).withBuiltins (c.typeOf role).2).2,
        names⟩ := by
  unfold Setting.new Repository.new Repository.blank
  generalize c.typeOf role = t
  obtain ⟨d, c'⟩ := t
  dsimp only

/-! ## §2. What the few ways keep. -/

/-- The constructor may be registered: the one of the optional types always. -/
def Admitted (Allowed : Descriptor → Constructor Handle → Prop) (definition : Descriptor)
    (k : Constructor Handle) : Prop :=
  Allowed definition k ∨
    definition = Catalog.nullableDefinition ∧ k = Repository.nullableConstructor

/-- The property of repositories is kept by registrations and by look-ups that are about types
in `K`. -/
structure Lasting (Allowed : Descriptor → Constructor Handle → Prop) (K : Descriptor → Prop)
    (I : Repository → Prop) : Prop where
  pool : ∀ {r : Repository} (p : Pool Builder), I r → I { r with pool := p }
  registerHandle : ∀ {r : Repository} {target : Descriptor} (valueType : Descriptor)
    (f : Formatter), K target → I r → I (r.registerHandle target valueType f).2
  registerGeneric : ∀ {r : Repository} {definition : Descriptor} {k : Constructor Handle},
    Admitted Allowed definition k → I r → I (r.registerGeneric definition k).2
  getRuntime : ∀ {r : Repository} {d : Descriptor}, K d → I r → I (r.getRuntime d).2
  get : ∀ {r : Repository} {c : Catalog} {t : HostType}, K (c.typeOf t).1 →
    (c.typeOf t).1.key = .host t → I r → I (r.get c t).2.1

/-- The property of repositories is kept by forgetting as well. -/
structure Kept (Allowed : Descriptor → Constructor Handle → Prop) (K : Descriptor → Prop)
    (I : Repository → Prop) : Prop extends Lasting Allowed K I where
  forget : ∀ {r : Repository}, I r → I r.forget

/-- What becomes of a catalogue and a repository: the catalogue grows, and the repository keeps
`I` if all that is known in the end is in `K`. -/
structure Moves (K : Descriptor → Prop) (I : Repository → Prop) (p p' : Repository × Catalog) :
    Prop where
  orderly : Orderly p'.2
  grows : Grows p.2 p'.2
  keeps : (∀ d, Known p'.2 d → K d) → I p.1 → I p'.1

variable {Allowed : Descriptor → Constructor Handle → Prop} {K : Descriptor → Prop}
  {I : Repository → Prop}

theorem Moves.refl {p : Repository × Catalog} (h : Orderly p.2) : Moves K I p p :=
  ⟨h, .refl _, fun _ hp => hp⟩

theorem Moves.trans {p₁ p₂ p₃ : Repository × Catalog} (h₁ : Moves K I p₁ p₂)
    (h₂ : Moves K I p₂ p₃) : Moves K I p₁ p₃ := by
  refine ⟨h₂.orderly, h₁.grows.trans h₂.grows, fun hK hp => ?_⟩
  exact h₂.keeps hK (h₁.keeps (fun d hd => hK d (h₂.grows d hd)) hp)

namespace Lasting

variable (hI : Lasting Allowed K I) {r : Repository} {c : Catalog}

include hI

theorem moves_registerHandle (hc : Orderly c) (t : HostType) (valueType : Descriptor)
    (f : Formatter) : Moves K I (r, c)
      ((r.registerHandle (c.typeOf t).1 valueType f).2, (c.typeOf t).2) := by
  obtain ⟨-, hg, hknown⟩ := hc.tidy.typeOf t
  exact ⟨hc.typeOf t, hg, fun hK hr => hI.registerHandle valueType f (hK _ hknown) hr⟩

theorem moves_register (hc : Orderly c) (t : HostType) (f : TypedFormatter) :
    Moves K I (r, c) (r.register c t f).2 := hI.moves_registerHandle hc t _ _

theorem moves_registering (bs : List (HostType × TypedFormatter)) :
    ∀ {p : Repository × Catalog}, Orderly p.2 →
      Moves K I p (bs.foldl Repository.registering p) := by
  induction bs with
  | nil => exact fun h => .refl h
  | cons b rest ih =>
      intro p hp
      have hfirst : Moves K I p (Repository.registering p b) := hI.moves_register hp b.1 b.2
      exact hfirst.trans (ih hfirst.orderly)

theorem moves_withBuiltins (hc : Orderly c) : Moves K I (r, c) (r.withBuiltins c) := by
  have htyped := hI.moves_registering Repository.typedBuiltins (p := (r, c)) hc
  unfold Repository.withBuiltins
  generalize Repository.typedBuiltins.foldl Repository.registering (r, c) = p at htyped ⊢
  have hgeneric : Moves K I p ((p.1.registerGeneric Catalog.nullableDefinition
      Repository.nullableConstructor).2, p.2) :=
    ⟨htyped.orderly, .refl _, fun _ hp => hI.registerGeneric (.inr ⟨rfl, rfl⟩) hp⟩
  have hlast := hI.moves_register (r := (p.1.registerGeneric Catalog.nullableDefinition
      Repository.nullableConstructor).2) hgeneric.orderly .uuid .uuid
  exact (htyped.trans hgeneric).trans hlast

theorem moves_new (hc : Orderly c) (roleName : String) (role : HostType) (pool : PoolOptions)
    (names : EnumNames) : Moves K I (.blank roleName (c.typeOf role).1 pool, c)
      ((Setting.new roleName role c pool names).repository,
        (Setting.new roleName role c pool names).catalog) := by
  obtain ⟨-, hg, -⟩ := hc.tidy.typeOf role
  have hnamed : Moves K I (.blank roleName (c.typeOf role).1 pool, c)
      (.blank roleName (c.typeOf role).1 pool, (c.typeOf role).2) :=
    ⟨hc.typeOf role, hg, fun _ h => h⟩
  rw [Setting.new_eq]
  have hbuiltins := hI.moves_withBuiltins (r := .blank roleName (c.typeOf role).1 pool)
    hnamed.orderly
  generalize Repository.withBuiltins _ _ = p at hbuiltins ⊢
  exact hnamed.trans hbuiltins

theorem moves_get (hc : Orderly c) (t : HostType) : Moves K I (r, c) (r.get c t).2 := by
  cases hmemo : r.statics.get? t with
  | some f =>
      have hget : (r.get c t).2 = (r, c) := by
        unfold Repository.get
        rw [hmemo]
      rw [hget]
      exact .refl hc
  | none =>
      obtain ⟨-, hg, hknown⟩ := hc.tidy.typeOf t
      have hcatalog : (r.get c t).2.2 = (c.typeOf t).2 := by
        unfold Repository.get
        rw [hmemo]
      refine ⟨hcatalog ▸ hc.typeOf t, hcatalog ▸ hg, fun hK hr => ?_⟩
      rw [hcatalog] at hK
      exact hI.get (hK _ hknown) (hc.tidy.key_typeOf t) hr

theorem moves_pool (hc : Orderly c) (p : Pool Builder) :
    Moves K I (r, c) ({ r with pool := p }, c) :=
  ⟨hc, .refl _, fun _ hr => hI.pool p hr⟩

end Lasting

/-- A repository that is reset forgets everything first. -/
theorem Kept.moves_reset (hI : Kept Allowed K I) {r : Repository} {c : Catalog} (hc : Orderly c) :
    Moves K I (r, c) (r.reset c) := by
  have hforget : Moves K I (r, c) (r.forget, c) := ⟨hc, .refl _, fun _ hr => hI.forget hr⟩
  exact hforget.trans (hI.moves_withBuiltins hc)

/-! ## §3. Writing. -/

/-- What work makes of a desk: the catalogue grows, and a repository is still there if it was
and keeps `I` if all that is known in the end is in `K`. -/
structure Desk.Moves (K : Descriptor → Prop) (I : Repository → Prop) (d d' : Desk) : Prop where
  orderly : Orderly d'.catalog
  grows : Grows d.catalog d'.catalog
  isSome : d'.home.isSome = d.home.isSome
  keeps : (∀ t, Known d'.catalog t → K t) → (∀ r, d.home = some r → I r) →
    ∀ r, d'.home = some r → I r

namespace Desk

variable {d d' : Desk}

theorem Moves.of_eq (h : Orderly d.catalog) (hc : d'.catalog = d.catalog)
    (hh : d'.home = d.home) : Desk.Moves K I d d' :=
  ⟨hc ▸ h, fun x hx => hc ▸ hx, by rw [hh], fun _ hd r hr => hd r (hh ▸ hr)⟩

theorem Moves.trans {d₁ d₂ d₃ : Desk} (h₁ : Desk.Moves K I d₁ d₂) (h₂ : Desk.Moves K I d₂ d₃) :
    Desk.Moves K I d₁ d₃ := by
  refine ⟨h₂.orderly, h₁.grows.trans h₂.grows, h₂.isSome.trans h₁.isSome, fun hK hd => ?_⟩
  exact h₂.keeps hK (h₁.keeps (fun t ht => hK t (h₂.grows t ht)) hd)

end Desk

/-- The type is known to a catalogue that is orderly. -/
def KnownAt (c : Catalog) (t : Descriptor) : Prop := Orderly c ∧ Known c t

/-- The catalogue may be the one of a later moment. -/
def LaterThan (c c' : Catalog) : Prop := Orderly c' ∧ Grows c c'

/-- Work that moves every desk with the catalogue. -/
def MovesAll (K : Descriptor → Prop) (I : Repository → Prop) (c : Catalog)
    (x : DeskWork Unit) : Prop :=
  ∀ d : Desk, d.catalog = c → Orderly c → Desk.Moves K I d (x d).2

/-- Work that moves every desk with the catalogue, and finds something that `P` holds of. -/
def FindsAll (K : Descriptor → Prop) (I : Repository → Prop) {α : Type} (c : Catalog)
    (x : DeskWork α) (P : Catalog → α → Prop) : Prop :=
  ∀ d : Desk, d.catalog = c → Orderly c →
    ∃ (a : α) (d' : Desk), x d = (.ok a, d') ∧ Desk.Moves K I d d' ∧ P d'.catalog a

theorem MovesAll.seq {c : Catalog} {x y : DeskWork Unit} (h : MovesAll K I c x)
    (h' : ∀ c', LaterThan c c' → MovesAll K I c' y) : MovesAll K I c (x >>= fun _ => y) := by
  intro d hd hc
  have hx := h d hd hc
  cases hrun : x d with
  | mk r after =>
  rw [hrun] at hx
  cases r with
  | error e => rw [Desk.run_bind_error hrun]; exact hx
  | ok u =>
      rw [Desk.run_bind_ok hrun]
      exact hx.trans (h' after.catalog ⟨hx.orderly, hd ▸ hx.grows⟩ after rfl hx.orderly)

theorem FindsAll.moves {α : Type} {c : Catalog} {x : DeskWork α} {P : Catalog → α → Prop}
    {k : α → DeskWork Unit} (h : FindsAll K I c x P)
    (h' : ∀ c' a, LaterThan c c' → P c' a → MovesAll K I c' (k a)) : MovesAll K I c (x >>= k) := by
  intro d hd hc
  obtain ⟨a, d', hrun, hx, ha⟩ := h d hd hc
  rw [Desk.run_bind_ok hrun]
  exact hx.trans (h' d'.catalog a ⟨hx.orderly, hd ▸ hx.grows⟩ ha d' rfl hx.orderly)

namespace Lasting

variable (hI : Lasting Allowed K I)

include hI

theorem finds_formatterFor {c : Catalog} {t : Descriptor} (ht : KnownAt c t) :
    FindsAll K I c (Desk.formatterFor t) fun _ o => ∀ h, o = some h → True := by
  intro d hd hc
  cases hhome : d.home with
  | none =>
      exact ⟨none, d, Desk.formatterFor_gone hhome t, .of_eq (hd ▸ hc) rfl rfl, fun _ _ => trivial⟩
  | some r =>
      refine ⟨some (r.getRuntime t).1, { d with home := some (r.getRuntime t).2 },
        Desk.formatterFor_there hhome t, ?_, fun _ _ => trivial⟩
      refine ⟨hd ▸ hc, .refl _, by rw [hhome]; rfl, fun hK hr r' he => ?_⟩
      cases he
      exact hI.getRuntime (hK t (hd ▸ ht.2)) (hr r hhome)

/-- **Writing moves a desk only by what the few ways do.** -/
theorem writingRules : Rules LaterThan (fun _ => True) KnownAt (FindsAll K I) (MovesAll K I)
    (MovesAll K I) where
  leaf _ := fun d hd hc => .of_eq (hd ▸ hc) rfl rfl
  texts _ _ := fun d hd hc => .of_eq (hd ▸ hc) rfl rfl
  series h := h
  seq h h' := h.seq h'
  atomic h := fun d hd hc => (h d hd hc).trans (.of_eq (h d hd hc).orderly rfl rfl)
  look h h' := h.moves h'
  lookSeries h h' := h.moves h'
  cast _ v t := fun d hd hc => ⟨_, d, rfl, .of_eq (hd ▸ hc) rfl rfl, trivial⟩
  nameOf _ e n := fun d hd hc => ⟨_, _, rfl, .of_eq (hd ▸ hc) rfl rfl, trivial⟩
  isHomeless _ := fun d hd hc => ⟨_, d, rfl, .of_eq (hd ▸ hc) rfl rfl, trivial⟩
  formatterFor ht := hI.finds_formatterFor ht
  typed _ v := fun d hd hc => by
    subst hd
    obtain ⟨ho, hg, hdescribes⟩ := hc.runtimeType v
    exact ⟨_, _, rfl, ⟨ho, hg, rfl, fun _ h => h⟩, ho, hdescribes.known⟩
  nullable hm hn := ⟨hm.1, hm.1.optional _ _ hm.2 hn⟩
  knowsLater ht hl := ⟨hl.1, hl.2 _ ht.2⟩

theorem moves_writeValue (f : Formatter) {v : TypedValue} {d : Desk} (hd : Orderly d.catalog)
    (hv : Known d.catalog v.type) : Desk.Moves K I d (f.writeValue v d).2 :=
  hI.writingRules.writeValue d.catalog f v trivial ⟨hd, hv⟩ d rfl hd

theorem moves_write (f : StaticFormatter) (v : Option View) {d : Desk} (hd : Orderly d.catalog) :
    Desk.Moves K I d (f.write v d).2 := by
  match f, v with
  | .exact f, v => exact .of_eq hd rfl rfl
  | .converting f, none => exact .of_eq hd rfl rfl
  | .converting f, some v =>
      have htyped := hI.writingRules.typed d.catalog v.value
      have hwrite := htyped.moves (k := fun t => f.writeValue ⟨v.value, t⟩) fun c t _ ht =>
        hI.writingRules.writeValue c f ⟨v.value, t⟩ trivial ht
      exact hwrite d rfl hd

end Lasting

/-! ## §4. Histories keep what the few ways keep. -/

theorem Repository.rent_pool (r : Repository) : ∃ p, r.rent.2 = { r with pool := p } := by
  unfold Repository.rent
  split
  · exact ⟨_, rfl⟩
  · exact ⟨r.pool, rfl⟩

theorem Repository.giveBack_pool (r : Repository) (b : Builder) :
    ∃ p, r.giveBack b = { r with pool := p } := by
  unfold Repository.giveBack
  split
  · exact ⟨_, rfl⟩
  · exact ⟨r.pool, rfl⟩
  · exact ⟨r.pool, rfl⟩
  · exact ⟨r.pool, rfl⟩

/-- The desk at which a value is formatted. -/
def Setting.formatting (s : Setting) (t : HostType) : Desk :=
  ⟨(s.repository.get s.catalog t).2.1.rent.1, (s.repository.get s.catalog t).2.2,
    some (s.repository.get s.catalog t).2.1.rent.2, s.names⟩

/-- The desk after a value was formatted at it. -/
def Setting.formatted (s : Setting) (t : HostType) (v : Option View) : Desk :=
  ((s.repository.get s.catalog t).1.write v (s.formatting t)).2

theorem Setting.format_eq (s : Setting) (t : HostType) (v : Option View) : s.format t v =
    ⟨((s.formatted t v).home.getD (s.repository.get s.catalog t).2.1.rent.2).giveBack
      (s.formatted t v).builder, (s.formatted t v).catalog, (s.formatted t v).names⟩ := rfl

theorem Setting.moves_update {s : Setting} {p : Repository × Catalog}
    (h : Moves K I (s.repository, s.catalog) p) :
    Moves K I (s.repository, s.catalog) ((s.update p).repository, (s.update p).catalog) := h

theorem Setting.moves_after {s : Setting} {b : Builder} {d : Desk}
    (hd : Desk.Moves K I (s.desk b) d) :
    Moves K I (s.repository, s.catalog) ((s.after d).repository, (s.after d).catalog) := by
  obtain ⟨r, hr⟩ := Option.isSome_iff_exists.mp hd.isSome
  refine ⟨hd.orderly, hd.grows, fun hK hI => ?_⟩
  have hleft : (s.after d).repository = r := by
    show d.home.getD s.repository = r
    rw [hr]
    rfl
  rw [hleft]
  exact hd.keeps hK (fun _ he => Option.some.inj he ▸ hI) r hr

namespace Lasting

variable (hI : Lasting Allowed K I)

include hI

theorem moves_format {s : Setting} (hs : Orderly s.catalog) (t : HostType) (v : Option View) :
    Moves K I (s.repository, s.catalog) ((s.format t v).repository, (s.format t v).catalog) := by
  have hget := hI.moves_get (r := s.repository) hs t
  obtain ⟨p, hrent⟩ := (s.repository.get s.catalog t).2.1.rent_pool
  have hrented := hI.moves_pool (r := (s.repository.get s.catalog t).2.1) hget.orderly p
  rw [← hrent] at hrented
  have hwritten : Desk.Moves K I (s.formatting t) (s.formatted t v) :=
    hI.moves_write (s.repository.get s.catalog t).1 v hget.orderly
  -- The repository is still there after writing, and gets its builder back.
  obtain ⟨r, hr⟩ := Option.isSome_iff_exists.mp hwritten.isSome
  obtain ⟨p', hback⟩ := r.giveBack_pool (s.formatted t v).builder
  refine (hget.trans hrented).trans ⟨hwritten.orderly, hwritten.grows, fun hK hrent => ?_⟩
  rw [s.format_eq, hr, Option.getD_some, hback]
  exact hI.pool p' (hwritten.keeps hK (fun _ he => Option.some.inj he ▸ hrent) r hr)

section

variable (hreset : ∀ (r : Repository) (c : Catalog), Orderly c → Moves K I (r, c) (r.reset c))

include hreset

/-- **A step keeps what the few ways keep**, if resetting does. -/
theorem step {s s' : Setting} (hs : Orderly s.catalog) (h : s.Step Allowed s') :
    Moves K I (s.repository, s.catalog) (s'.repository, s'.catalog) := by
  cases h with
  | learn hc hg => exact ⟨hc, hg, fun _ h => h⟩
  | register t f => exact Setting.moves_update (hI.moves_register hs t f)
  | registerHandle h valueType f =>
      exact ⟨hs, .refl _, fun hK hr => hI.registerHandle valueType f (hK _ h) hr⟩
  | registerGeneric h => exact ⟨hs, .refl _, fun _ hr => hI.registerGeneric (.inl h) hr⟩
  | setDynamic t => exact Setting.moves_update (hI.moves_registerHandle hs t _ _)
  | reset => exact Setting.moves_update (hreset _ _ hs)
  | get t => exact Setting.moves_update (hI.moves_get hs t)
  | getRuntime h => exact ⟨hs, .refl _, fun hK hr => hI.getRuntime (hK _ h) hr⟩
  | format t v => exact hI.moves_format hs t v
  | write f h b => exact Setting.moves_after (hI.moves_writeValue f (d := s.desk b) hs h)

/-- **And so does every history.** -/
theorem reaches {s s' : Setting} (hs : Orderly s.catalog) (h : s.Reaches Allowed s') :
    Moves K I (s.repository, s.catalog) (s'.repository, s'.catalog) := by
  -- Induction on the history, with one more step at its end.
  induction h with
  | refl => exact .refl hs
  | tail _ hstep ih => exact ih.trans (hI.step hreset ih.orderly hstep)

end

end Lasting

theorem Kept.reaches (hI : Kept Allowed K I) {s s' : Setting} (hs : Orderly s.catalog)
    (h : s.Reaches Allowed s') :
    Moves K I (s.repository, s.catalog) (s'.repository, s'.catalog) :=
  hI.toLasting.reaches (fun _ _ => hI.moves_reset) hs h

/-- **What the few ways keep is kept from the first repository on.** -/
theorem Kept.moves_reached (hI : Kept Allowed K I) {c : Catalog} (hc : Orderly c)
    {roleName : String} {role : HostType} {pool : PoolOptions} {names : EnumNames} {s : Setting}
    (hs : (Setting.new roleName role c pool names).Reaches Allowed s) :
    Moves K I (.blank roleName (c.typeOf role).1 pool, c) (s.repository, s.catalog) := by
  have hnew := hI.moves_new hc roleName role pool names
  generalize Setting.new roleName role c pool names = s₀ at hs hnew
  exact hnew.trans (hI.reaches hnew.orderly hs)

/-- **The catalogue is orderly in the end.** -/
theorem orderly_reached {c : Catalog} (hc : Orderly c) {roleName : String} {role : HostType}
    {pool : PoolOptions} {names : EnumNames} {s : Setting}
    (hs : (Setting.new roleName role c pool names).Reaches Allowed s) : Orderly s.catalog := by
  -- Nothing has to be kept but the catalogue.
  have hlasting : Lasting Allowed (fun _ => True) fun _ => True := by
    constructor <;> intros <;> trivial
  have hkept : Kept Allowed (fun _ => True) fun _ => True := ⟨hlasting, fun _ => trivial⟩
  exact (hkept.moves_reached hc hs).orderly

end ValueText
