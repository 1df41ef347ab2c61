/-
  ValueText.Proofs.Types.Orderly — catalogues in which a type keeps its descriptor.

  A descriptor holds copies of the descriptors it refers to.  If a type is
  declared again, or after something mentioned it, these copies are of another
  type of the same key.  In an orderly catalogue that does not happen: each type is
  declared once at most, and before it is mentioned.

  Main results:

    • `Tidy`     what an orderly catalogue keeps: a descriptor is found under its
                 key, and its parents are the descriptors found under theirs;
    • `Orderly.family`  the types of an orderly catalogue are a family, so that their
                 chains are what `Ancestry` says.
-/
import ValueText.Proofs.Types.Ancestry
import ValueText.Types.Catalog

namespace ValueText

open Descriptor (Parent objectType)

namespace Catalog

variable {c c' : Catalog} {d : Descriptor}

/-! ## §1. Known types. -/

/-- The catalogue has the descriptor under its key. -/
def Known (c : Catalog) (d : Descriptor) : Prop := c.get? d.key = some d

/-- Whatever is known to `c` is known to `c'`. -/
def Grows (c c' : Catalog) : Prop := ∀ d, Known c d → Known c' d

theorem Grows.refl (c : Catalog) : Grows c c := fun _ h => h

theorem Grows.trans {c₁ c₂ c₃ : Catalog} (h₁ : Grows c₁ c₂) (h₂ : Grows c₂ c₃) : Grows c₁ c₃ :=
  fun d h => h₂ d (h₁ d h)

theorem get?_insert (c : Catalog) (d : Descriptor) (k : TypeKey) :
    (c.insert d).get? k = if d.key = k then some d else c.get? k :=
  Table.get?_set c.types d.key k d

/-- What a catalogue keeps if a type never gets another descriptor. -/
structure Tidy (c : Catalog) : Prop where
  keyed : ∀ k d, c.get? k = some d → d.key = k
  parents : ∀ d p, Known c d → Parent p d → Known c p
  object : Known c objectType
  isObject : ∀ d, Known c d → d.isObject = true → d = objectType
  interface : ∀ d, Known c d → d.isInterface = true → d.base = none ∧ d.definition = none

/-- A descriptor that may be added: its parents are known, it is no object type,
and an interface has no base type and is no instance. -/
structure Fits (c : Catalog) (d : Descriptor) : Prop where
  parents : ∀ p, Parent p d → Known c p
  object : d.isObject = false
  interface : d.isInterface = true → d.base = none ∧ d.definition = none

theorem Fits.grows (h : Fits c d) (hc : Grows c c') : Fits c' d :=
  ⟨fun p hp => hc p (h.parents p hp), h.object, h.interface⟩

theorem grows_insert (h : c.get? d.key = none) : Grows c (c.insert d) := by
  intro x hx
  rw [Known, get?_insert]
  split
  · next he =>
      rw [Known, ← he, h] at hx
      cases hx
  · exact hx

theorem Tidy.insert (h : Tidy c) (hnew : c.get? d.key = none) (hd : Fits c d) :
    Tidy (c.insert d) := by
  have hgrows := grows_insert hnew
  -- What is known afterwards is the new type, or was known before.
  have hknown {x : Descriptor} (hx : Known (c.insert d) x) : x = d ∨ Known c x := by
    rw [Known, get?_insert] at hx
    split at hx
    · exact .inl (Option.some.inj hx).symm
    · exact .inr hx
  refine ⟨?_, ?_, hgrows _ h.object, ?_, ?_⟩
  · intro k x hx
    rw [get?_insert] at hx
    split at hx
    · next he => cases hx; exact he
    · exact h.keyed k x hx
  · intro x p hx hp
    rcases hknown hx with rfl | hx
    · exact hgrows p (hd.parents p hp)
    · exact hgrows p (h.parents x p hx hp)
  · intro x hx ho
    rcases hknown hx with rfl | hx
    · rw [hd.object] at ho
      cases ho
    · exact h.isObject x hx ho
  · intro x hx hi
    rcases hknown hx with rfl | hx
    · exact hd.interface hi
    · exact h.interface x hx hi

/-- Links are no types. -/
theorem Tidy.of_types (h : Tidy c) (hc : c'.types = c.types) : Tidy c' := by
  have hget (k : TypeKey) : c'.get? k = c.get? k := by rw [get?, get?, hc]
  have hknown (x : Descriptor) : Known c' x ↔ Known c x := by rw [Known, Known, hget]
  refine ⟨?_, ?_, (hknown _).mpr h.object, ?_, ?_⟩
  · intro k x hx
    exact h.keyed k x ((hget k).symm.trans hx)
  · intro x p hx hp
    exact (hknown p).mpr (h.parents x p ((hknown x).mp hx) hp)
  · intro x hx
    exact h.isObject x ((hknown x).mp hx)
  · intro x hx
    exact h.interface x ((hknown x).mp hx)

/-- **The types of a tidy catalogue are a family.** -/
theorem Tidy.family (h : Tidy c) : Descriptor.Family (Known c) := by
  refine ⟨?_, fun a d hd hp => h.parents d a hd hp, h.object, h.isObject⟩
  intro a d ha hd hkey
  rw [Known, hkey, hd] at ha
  exact (Option.some.inj ha).symm

/-! ## §2. Types that are mentioned. -/

theorem fits_blank (c : Catalog) {t : HostType} : Fits c (c.blank t) := by
  refine ⟨?_, ?_, fun _ => ⟨rfl, rfl⟩⟩
  · rintro p (h | h)
    · cases h
    · cases h
  · simp only [blank, Descriptor.isObject, Descriptor.kind]
    split <;> rfl

theorem Tidy.typeOf (h : Tidy c) (t : HostType) :
    Tidy (c.typeOf t).2 ∧ Grows c (c.typeOf t).2 ∧ Known (c.typeOf t).2 (c.typeOf t).1 := by
  unfold Catalog.typeOf
  split
  · next d hd =>
      refine ⟨h, .refl c, ?_⟩
      rw [Known, h.keyed _ d hd]
      exact hd
  · next hn =>
      -- A type that is mentioned first gets a blank descriptor.
      have hkey : (c.blank t).key = .host t := rfl
      rw [← hkey] at hn
      refine ⟨h.insert hn (fits_blank c), grows_insert hn, ?_⟩
      rw [Known, get?_insert, if_pos rfl]

theorem Tidy.key_typeOf (h : Tidy c) (t : HostType) : (c.typeOf t).1.key = .host t := by
  unfold Catalog.typeOf
  split
  · next d hd => exact h.keyed _ d hd
  · rfl

/-- A type that is made from others and has no parents. -/
theorem Tidy.named (h : Tidy c) {key : String} {make : TypeKey → Descriptor}
    (hkey : (make (.named key)).key = .named key) (hfits : Fits c (make (.named key))) :
    Tidy (c.named key make).2 ∧ Grows c (c.named key make).2 := by
  unfold Catalog.named
  split
  · exact ⟨h, .refl c⟩
  · next hn =>
      rw [← hkey] at hn
      exact ⟨h.insert hn hfits, grows_insert hn⟩

/-! ## §3. Types that are declared. -/

/-- A clause that the declaration of an interface can have. -/
def Clause.suitsInterface : Clause → Prop
  | .name _ | .space _ | .noSpace | .nestedIn _ | .implements _ => True
  | _ => False

/-- Changing what a descriptor says of itself alone. -/
theorem Fits.modify (h : Fits c d) (f : TypeFacts → TypeFacts)
    (ho : (f d.facts).kind = .object → d.isObject = true)
    (hi : (f d.facts).kind = .interface → d.isInterface = true) :
    Fits c { d with facts := f d.facts } := by
  refine ⟨h.parents, ?_, ?_⟩
  · apply Bool.eq_false_iff.mpr
    intro hk
    have hobject := ho (of_decide_eq_true hk)
    rw [h.object] at hobject
    cases hobject
  · intro hk
    exact h.interface (hi (of_decide_eq_true hk))

/-- What a clause makes of a draft and of the catalogue. -/
structure Drafted (c : Catalog) (r : Draft × Catalog) (d : Draft) : Prop where
  tidy : Tidy r.2
  grows : Grows c r.2
  fits : Fits r.2 r.1.descriptor
  key : r.1.descriptor.key = d.descriptor.key
  interface : d.descriptor.isInterface = false → r.1.descriptor.isInterface = false

theorem drafted_modify {d : Draft} (hc : Tidy c) (hd : Fits c d.descriptor)
    (f : TypeFacts → TypeFacts) (hk : (f d.descriptor.facts).key = d.descriptor.facts.key)
    (ho : (f d.descriptor.facts).kind = .object → d.descriptor.isObject = true)
    (hi : (f d.descriptor.facts).kind = .interface → d.descriptor.isInterface = true) :
    Drafted c (d.modify f, c) d := by
  refine ⟨hc, .refl c, hd.modify f ho hi, hk, fun hno => ?_⟩
  apply Bool.eq_false_iff.mpr
  intro hint
  rw [hi (of_decide_eq_true hint)] at hno
  cases hno

/-- **A clause keeps a draft in shape.** -/
theorem drafted_add {d : Draft} (hc : Tidy c) (hd : Fits c d.descriptor) (clause : Clause)
    (hs : d.descriptor.isInterface = false ∨ clause.suitsInterface) :
    Drafted c (d.add c clause) d := by
  have hsame (f : TypeFacts → TypeFacts) (hk : (f d.descriptor.facts).key = d.descriptor.facts.key)
      (hf : (f d.descriptor.facts).kind = d.descriptor.facts.kind) :
      Drafted c (d.modify f, c) d :=
    drafted_modify hc hd f hk (fun h => decide_eq_true (hf.symm.trans h))
      fun h => decide_eq_true (hf.symm.trans h)
  cases clause with
  | name s => exact hsame _ rfl rfl
  | space s => exact hsame _ rfl rfl
  | noSpace => exact hsame _ rfl rfl
  | abstractType => exact hsame _ rfl rfl
  | anonymous => exact hsame _ rfl rfl
  | property name source => exact hsame _ rfl rfl
  | displayable => exact hsame _ rfl rfl
  | valueType => exact drafted_modify hc hd _ rfl (fun h => by cases h) fun h => by cases h
  | primitive => exact drafted_modify hc hd _ rfl (fun h => by cases h) fun h => by cases h
  | nestedIn t =>
      obtain ⟨ht, hg, -⟩ := hc.typeOf t
      have hfits := hd.grows hg
      exact ⟨ht, hg, ⟨hfits.parents, hfits.object, hfits.interface⟩, rfl, id⟩
  | base t =>
      obtain ⟨ht, hg, hk⟩ := hc.typeOf t
      have hfits := hd.grows hg
      -- No interface has a base type, so the draft is none.
      have hno : d.descriptor.isInterface = false := hs.resolve_right id
      refine ⟨ht, hg, ⟨?_, hfits.object, fun hi => ?_⟩, rfl, id⟩
      · rintro p (hp | hp)
        · cases hp
          exact hk
        · exact hfits.parents p (.inr hp)
      · have hi' : d.descriptor.isInterface = true := hi
        rw [hno] at hi'
        cases hi'
  | implements t =>
      obtain ⟨ht, hg, hk⟩ := hc.typeOf t
      have hfits := hd.grows hg
      refine ⟨ht, hg, ⟨?_, hfits.object, hfits.interface⟩, rfl, id⟩
      rintro p (hp | hp)
      · exact hfits.parents p (.inl hp)
      · rcases List.mem_append.mp hp with hp | hp
        · exact hfits.parents p (.inr hp)
        · rw [List.mem_singleton.mp hp]
          exact hk
  | instanceOf definition arguments =>
      have hno : d.descriptor.isInterface = false := hs.resolve_right id
      refine ⟨hc, .refl c, ⟨hd.parents, hd.object, fun hi => ?_⟩, rfl, id⟩
      have hi' : d.descriptor.isInterface = true := hi
      rw [hno] at hi'
      cases hi'

theorem drafted_addAll (clauses : List Clause) : ∀ {c : Catalog} {d : Draft}, Tidy c →
    Fits c d.descriptor →
    (d.descriptor.isInterface = false ∨ ∀ clause ∈ clauses, clause.suitsInterface) →
    Drafted c (d.addAll c clauses) d := by
  induction clauses with
  | nil => intro c d hc hd _; exact ⟨hc, .refl c, hd, rfl, id⟩
  | cons clause rest ih =>
      intro c d hc hd hs
      have h₁ := drafted_add hc hd clause (hs.imp id fun h => h clause List.mem_cons_self)
      have hs' : (d.add c clause).1.descriptor.isInterface = false ∨
          ∀ clause ∈ rest, clause.suitsInterface :=
        hs.imp h₁.interface fun h k hk => h k (List.mem_cons_of_mem _ hk)
      have h₂ := ih h₁.tidy h₁.fits hs'
      exact ⟨h₂.tidy, h₁.grows.trans h₂.grows, h₂.fits, h₂.key.trans h₁.key,
        fun hno => h₂.interface (h₁.interface hno)⟩

theorem types_foldl_insertLink (source : TypeKey) (links : List (TypeKey × Link)) :
    ∀ c : Catalog, (links.foldl (fun c l => c.insertLink source l.1 l.2) c).types = c.types := by
  induction links with
  | nil => intro c; rfl
  | cons l rest ih => intro c; exact ih _

theorem types_publish (c : Catalog) (d : Draft) :
    (c.publish d).2.types = (c.insert d.descriptor).types := by
  simp only [publish, insert, types_foldl_insertLink]

/-- A draft of a type that is not known yet is published. -/
theorem Drafted.publish {d₀ : Draft} {r : Draft × Catalog} (h : Drafted c r d₀)
    (hnew : r.2.get? d₀.descriptor.key = none) (hc' : c'.types = (r.2.insert r.1.descriptor).types) :
    Tidy c' ∧ Grows c c' := by
  -- The clauses left the key alone, so it is the published descriptor that is new.
  rw [← h.key] at hnew
  refine ⟨(h.tidy.insert hnew h.fits).of_types hc', fun x hx => ?_⟩
  have hx' := grows_insert hnew x (h.grows x hx)
  rwa [Known, get?, hc']

/-- **A type that is declared before it is mentioned leaves the catalogue tidy.** -/
theorem Tidy.declareFrom (h : Tidy c) {t : HostType} {start : Descriptor} {clauses : List Clause}
    (hs : Fits c start) (hi : start.isInterface = false)
    (hnew : (Draft.addAll c ⟨t, start, []⟩ clauses).2.get? start.key = none) :
    Tidy (c.declareFrom t start clauses).2 ∧ Grows c (c.declareFrom t start clauses).2 := by
  have hd := drafted_addAll clauses h (d := ⟨t, start, []⟩) hs (.inl hi)
  apply hd.publish hnew
  rw [Catalog.declareFrom, types_publish]
  rfl

theorem Tidy.declareInterface (h : Tidy c) {t : HostType} {clauses : List Clause}
    (hs : ∀ clause ∈ clauses, clause.suitsInterface)
    (hnew : (Draft.addAll c ⟨t, c.start t .interface, []⟩ clauses).2.get? (.host t) = none) :
    Tidy (c.declareInterface t clauses).2 ∧ Grows c (c.declareInterface t clauses).2 := by
  have hblank : Fits c (c.start t .interface) := by
    refine ⟨?_, rfl, fun _ => ⟨rfl, rfl⟩⟩
    rintro p (hp | hp)
    · cases hp
    · cases hp
  have hd := drafted_addAll clauses h (d := ⟨t, c.start t .interface, []⟩) hblank (.inr hs)
  apply hd.publish hnew
  rw [Catalog.declareInterface, types_publish]

/-! ## §4. The catalogue that everything starts from. -/

/-- No type has a parent.  This is kept even where a type gets another descriptor. -/
structure Flat (c : Catalog) : Prop where
  keyed : ∀ k d, c.get? k = some d → d.key = k
  object : Known c objectType
  plain : ∀ k d, c.get? k = some d → d.base = none ∧ d.interfaces = [] ∧
    (d.isObject = true → d = objectType) ∧ (d.isInterface = true → d.definition = none)

theorem Flat.tidy (h : Flat c) : Tidy c := by
  refine ⟨h.keyed, ?_, h.object, fun d hd => (h.plain _ d hd).2.2.1, fun d hd hi => ?_⟩
  · rintro d p hd (hp | hp)
    · rw [(h.plain _ d hd).1] at hp
      cases hp
    · rw [(h.plain _ d hd).2.1] at hp
      cases hp
  · exact ⟨(h.plain _ d hd).1, (h.plain _ d hd).2.2.2 hi⟩

theorem Flat.insert (h : Flat c) (hkey : d.key ≠ objectType.key) (hb : d.base = none)
    (hi : d.interfaces = []) (ho : d.isObject = false)
    (hd : d.isInterface = true → d.definition = none) : Flat (c.insert d) := by
  refine ⟨?_, ?_, ?_⟩
  · intro k x hx
    rw [get?_insert] at hx
    split at hx
    · next he => cases hx; exact he
    · exact h.keyed k x hx
  · rw [Known, get?_insert, if_neg hkey]
    exact h.object
  · intro k x hx
    rw [get?_insert] at hx
    split at hx
    · cases hx
      refine ⟨hb, hi, fun h => ?_, hd⟩
      rw [ho] at h
      cases h
    · exact h.plain k x hx

theorem Flat.of_types (h : Flat c) (hc : c'.types = c.types) : Flat c' := by
  have hget (k : TypeKey) : c'.get? k = c.get? k := by rw [get?, get?, hc]
  refine ⟨fun k x hx => h.keyed k x ((hget k).symm.trans hx), ?_,
    fun k x hx => h.plain k x ((hget k).symm.trans hx)⟩
  rw [Known, hget]
  exact h.object

theorem Flat.typeOf (h : Flat c) (t : HostType) :
    Flat (c.typeOf t).2 ∧ (c.typeOf t).1.base = none ∧ (c.typeOf t).1.interfaces = [] := by
  unfold Catalog.typeOf
  split
  · next d hd => exact ⟨h, (h.plain _ d hd).1, (h.plain _ d hd).2.1⟩
  · next hn =>
      -- The object type is known, so the new type is another one.
      have hkey : (c.blank t).key ≠ objectType.key := by
        intro he
        have ht : c.get? objectType.key = none := he ▸ hn
        rw [h.object] at ht
        cases ht
      exact ⟨h.insert hkey rfl rfl (fits_blank c).object fun _ => rfl, rfl, rfl⟩

/-- A clause about the type itself. -/
def Clause.isFact : Clause → Bool
  | .name _ | .space _ | .valueType | .primitive | .abstractType | .displayable => true
  | _ => false

/-- What such clauses leave as it is. -/
structure SameShape (c : Catalog) (d : Draft) (r : Draft × Catalog) : Prop where
  catalog : r.2 = c
  key : r.1.descriptor.key = d.descriptor.key
  base : r.1.descriptor.base = d.descriptor.base
  interfaces : r.1.descriptor.interfaces = d.descriptor.interfaces
  definition : r.1.descriptor.definition = d.descriptor.definition
  object : r.1.descriptor.isObject = true → d.descriptor.isObject = true
  interface : r.1.descriptor.isInterface = true → d.descriptor.isInterface = true

theorem sameShape_addAll (clauses : List Clause) : ∀ {c : Catalog} {d : Draft},
    clauses.all Clause.isFact = true → SameShape c d (d.addAll c clauses) := by
  induction clauses with
  | nil => intro c d _; exact ⟨rfl, rfl, rfl, rfl, rfl, id, id⟩
  | cons clause rest ih =>
      intro c d hs
      rw [List.all_cons, Bool.and_eq_true] at hs
      obtain ⟨hfact, hs⟩ := hs
      have hsame (f : TypeFacts → TypeFacts) (hk : (f d.descriptor.facts).key = d.descriptor.facts.key)
          (ho : (f d.descriptor.facts).kind = .object → d.descriptor.facts.kind = .object)
          (hi : (f d.descriptor.facts).kind = .interface → d.descriptor.facts.kind = .interface) :
          SameShape c d ((d.modify f).addAll c rest) := by
        have h := ih (c := c) (d := d.modify f) hs
        exact ⟨h.catalog, h.key.trans hk, h.base, h.interfaces, h.definition,
          fun hr => decide_eq_true (ho (of_decide_eq_true (h.object hr))),
          fun hr => decide_eq_true (hi (of_decide_eq_true (h.interface hr)))⟩
      -- Value types and primitives are of other kinds than objects and interfaces.
      cases clause with
      | name s => exact hsame _ rfl id id
      | space s => exact hsame _ rfl id id
      | abstractType => exact hsame _ rfl id id
      | displayable => exact hsame _ rfl id id
      | valueType => exact hsame _ rfl (fun h => by cases h) fun h => by cases h
      | primitive => exact hsame _ rfl (fun h => by cases h) fun h => by cases h
      | noSpace => cases hfact
      | nestedIn t => cases hfact
      | anonymous => cases hfact
      | base t => cases hfact
      | implements t => cases hfact
      | instanceOf definition arguments => cases hfact
      | property name source => cases hfact

/-- A draft without parents is published. -/
theorem Flat.publish (h : Flat c) {d : Draft} {r : Draft × Catalog} (hr : SameShape c d r)
    (hkey : d.descriptor.key ≠ objectType.key) (hb : d.descriptor.base = none)
    (hi : d.descriptor.interfaces = []) (ho : d.descriptor.isObject = false)
    (hd : d.descriptor.isInterface = true → d.descriptor.definition = none)
    (hc' : c'.types = (c.insert r.1.descriptor).types) : Flat c' := by
  refine (h.insert (hr.key ▸ hkey) (hr.base.trans hb) (hr.interfaces.trans hi) ?_ ?_).of_types hc'
  · apply Bool.eq_false_iff.mpr
    intro hobj
    rw [hr.object hobj] at ho
    cases ho
  · intro hint
    exact hr.definition.trans (hd (hr.interface hint))

theorem Flat.withType (h : Flat c) (t : HostType) (clauses : List Clause)
    (ht : t ≠ .object) (hs : clauses.all Clause.isFact = true) : Flat (c.withType t clauses) := by
  have hr := sameShape_addAll (d := ⟨t, c.start t .reference, []⟩) clauses (c := c) hs
  refine h.publish hr ?_ rfl rfl rfl (fun hi => by cases hi) ?_
  · intro he
    injection he with he
    exact ht he
  · simp only [Catalog.withType, declare, Catalog.declareFrom, types_publish, insertLink,
      Catalog.insert, hr.catalog]

theorem Flat.withNullable (h : Flat c) (t : HostType) : Flat (c.withNullable t) := by
  obtain ⟨ht, -, -⟩ := h.typeOf t
  let start : Draft := ⟨.option t,
    { facts := { key := .host (.option t), name := nullableDefinition.name,
                 space := some "System", kind := .struct }
      definition := some nullableDefinition
      arguments := [(c.typeOf t).1]
      nullable := some (c.typeOf t).1 }, []⟩
  have hr : SameShape (c.typeOf t).2 start (start.addAll (c.typeOf t).2 []) :=
    sameShape_addAll [] rfl
  refine ht.publish hr (fun he => ?_) rfl rfl rfl (fun hi => by cases hi) ?_
  · injection he with he
    cases he
  · simp only [Catalog.withNullable, declareNullable, Catalog.declareFrom, types_publish]
    rfl

theorem Flat.withPrimitive (h : Flat c) {t : HostType} (ht : t ≠ .object) (name : String) :
    Flat (c.withPrimitive t name) :=
  (h.withType t [.name name, .space "System", .primitive, .displayable] ht rfl).withNullable t

theorem Flat.withPrimitives (ps : List (HostType × String)) : ∀ {c : Catalog}, Flat c →
    (∀ p ∈ ps, p.1 ≠ .object) → Flat (ps.foldl (fun c p => c.withPrimitive p.1 p.2) c) := by
  induction ps with
  | nil => intro c h _; exact h
  | cons p ps ih =>
      intro c h hp
      exact ih (h.withPrimitive (hp p List.mem_cons_self) p.2) fun q hq =>
        hp q (List.mem_cons_of_mem _ hq)

/-- The empty catalogue with the object type. -/
theorem flat_object (spelling : HostSpelling) (parts : Parts) :
    Flat (({ spelling := spelling, parts := parts } : Catalog).insert objectType) := by
  have hget (k : TypeKey) :
      (({ spelling := spelling, parts := parts } : Catalog).insert objectType).get? k =
      if objectType.key = k then some objectType else none :=
    get?_insert { spelling := spelling, parts := parts } objectType k
  refine ⟨fun k d hd => ?_, ?_, fun k d hd => ?_⟩
  · rw [hget] at hd
    split at hd
    · next he => cases hd; exact he
    · cases hd
  · rw [Known, hget, if_pos rfl]
  · rw [hget] at hd
    split at hd
    · cases hd
      exact ⟨rfl, rfl, fun _ => rfl, fun _ => rfl⟩
    · cases hd

theorem Flat.declareDisplay (h : Flat c) :
    Flat (c.declareInterface .display [.name "IFormattable", .space "System"]).2 := by
  let start : Draft := ⟨.display, c.start .display .interface, []⟩
  have hr : SameShape c start (start.addAll c [.name "IFormattable", .space "System"]) :=
    sameShape_addAll _ rfl
  refine h.publish hr (fun he => ?_) rfl rfl rfl (fun _ => rfl) ?_
  · injection he with he
    cases he
  · rw [declareInterface, types_publish, hr.catalog]

/-- The types up to the texts. -/
theorem flat_new_texts (spelling : HostSpelling) (parts : Parts) :
    Flat (((primitives.foldl (fun c p => c.withPrimitive p.1 p.2)
      (((({ spelling := spelling, parts := parts } : Catalog).insert objectType).insert
        arrayMarker).insert nullableDefinition
          |>.declareInterface .display [.name "IFormattable", .space "System"]).2)
      ).insert { facts := { key := .host .text, name := "String", space := some "System" } }) := by
  have h₁ := (flat_object spelling parts).insert (d := arrayMarker) (by decide) rfl rfl rfl
    fun _ => rfl
  have h₂ := h₁.insert (d := nullableDefinition) (by decide) rfl rfl rfl fun _ => rfl
  have h₃ := h₂.declareDisplay.withPrimitives primitives (by decide)
  exact h₃.insert (by decide) rfl rfl rfl fun _ => rfl

/-- **No type has a parent in the beginning.** -/
theorem flat_new (spelling : HostSpelling) (parts : Parts) : Flat (new spelling parts) := by
  unfold new
  -- From the last type that is put in to the first one.
  refine Flat.withType ?_ .method _ (by decide) rfl
  refine Flat.withType ?_ .typeInfo _ (by decide) rfl
  refine Flat.withNullable ?_ .uuid
  refine Flat.withType ?_ .uuid _ (by decide) rfl
  refine Flat.withNullable ?_ .time
  refine Flat.withType ?_ .time _ (by decide) rfl
  refine Flat.withNullable ?_ .duration
  refine Flat.withType ?_ .duration _ (by decide) rfl
  refine Flat.withType ?_ .string _ (by decide) rfl
  exact (flat_new_texts spelling parts).of_types rfl

/-! ## §5. Orderly catalogues. -/

/-- The catalogue once the types that a clause mentions are known. -/
def mention (c : Catalog) : Clause → Catalog
  | .nestedIn t | .base t | .implements t => (c.typeOf t).2
  | _ => c

theorem addAll_catalog (clauses : List Clause) : ∀ (c : Catalog) (d : Draft),
    (d.addAll c clauses).2 = clauses.foldl mention c := by
  induction clauses with
  | nil => intro c d; rfl
  | cons clause rest ih =>
      intro c d
      have hclause : (d.add c clause).2 = c.mention clause := by cases clause <;> rfl
      rw [List.foldl_cons, ← hclause]
      exact ih _ _

/-- The type is not known once the clauses of its declaration have been read, so nothing
declared or mentioned it before. -/
def Unmentioned (c : Catalog) (t : HostType) (clauses : List Clause) : Prop :=
  (clauses.foldl mention c).get? (.host t) = none

/-- A catalogue in which each type was declared once at most, and before it was mentioned. -/
inductive Orderly : Catalog → Prop
  | new (spelling : HostSpelling) (parts : Parts) : Orderly (new spelling parts)
  | typeOf {c : Catalog} (t : HostType) : Orderly c → Orderly (c.typeOf t).2
  | describe {c : Catalog} (t : HostType) : Orderly c → Orderly (c.describe t).2
  | genericDefinition {c : Catalog} (space : Option String) (name : String) (arity : Nat) :
      Orderly c → Orderly (c.genericDefinition space name arity).2
  | genericParameter {c : Catalog} (name : String) :
      Orderly c → Orderly (c.genericParameter name).2
  | pointerTo {c : Catalog} (d : Descriptor) : Orderly c → Orderly (c.pointerTo d).2
  | byRef {c : Catalog} (d : Descriptor) : Orderly c → Orderly (c.byRef d).2
  | declare {c : Catalog} (t : HostType) (clauses : List Clause) : Orderly c →
      Unmentioned c t clauses → Orderly (c.declare t clauses).2
  | declareEnumeration {c : Catalog} (t : HostType) (members : Enumeration.Declared)
      (clauses : List Clause) : Orderly c →
      Unmentioned c t clauses → Orderly (c.declareEnumeration t members clauses).2
  | declareInterface {c : Catalog} (t : HostType) (clauses : List Clause) : Orderly c →
      (∀ clause ∈ clauses, clause.suitsInterface) →
      Unmentioned c t clauses → Orderly (c.declareInterface t clauses).2
  | declareNullable {c : Catalog} (t : HostType) : Orderly c →
      Unmentioned (c.typeOf t).2 (.option t) [] → Orderly (c.declareNullable t).2
  | declareArray {c : Catalog} (t : HostType) : Orderly c →
      Unmentioned (c.typeOf t).2 (.array t) [] → Orderly (c.declareArray t).2

/-- A descriptor without parents that is neither an object type nor an interface. -/
theorem fits_of_parentless (hb : d.base = none) (hi : d.interfaces = [])
    (ho : d.isObject = false) (hn : d.isInterface = false) : Fits c d := by
  refine ⟨?_, ho, fun h => ?_⟩
  · rintro p (hp | hp)
    · rw [hb] at hp
      cases hp
    · rw [hi] at hp
      cases hp
  · rw [hn] at h
    cases h

/-- **An orderly catalogue is tidy.** -/
theorem Orderly.tidy (h : Orderly c) : Tidy c := by
  induction h with
  | new spelling parts => exact (flat_new spelling parts).tidy
  | typeOf t _ ih => exact (ih.typeOf t).1
  | describe t _ ih => exact (ih.typeOf t).1.of_types rfl
  | genericDefinition space name arity _ ih =>
      exact (ih.named rfl (fits_of_parentless rfl rfl rfl rfl)).1
  | genericParameter name _ ih => exact (ih.named rfl (fits_of_parentless rfl rfl rfl rfl)).1
  | pointerTo d _ ih => exact (ih.named rfl (fits_of_parentless rfl rfl rfl rfl)).1
  | byRef d _ ih => exact (ih.named rfl (fits_of_parentless rfl rfl rfl rfl)).1
  | declare t clauses _ hnew ih =>
      refine (ih.declareFrom (fits_of_parentless rfl rfl rfl rfl) rfl ?_).1
      rw [addAll_catalog]
      exact hnew
  | declareEnumeration t members clauses _ hnew ih =>
      refine (ih.declareFrom (fits_of_parentless rfl rfl rfl rfl) rfl ?_).1
      rw [addAll_catalog]
      exact hnew
  | declareInterface t clauses _ hs hnew ih =>
      refine (ih.declareInterface hs ?_).1
      rw [addAll_catalog]
      exact hnew
  | declareNullable t _ hnew ih =>
      unfold Catalog.declareNullable
      refine ((ih.typeOf t).1.declareFrom (fits_of_parentless rfl rfl rfl rfl) rfl ?_).1
      exact hnew
  | declareArray t _ hnew ih =>
      unfold Catalog.declareArray
      refine ((ih.typeOf t).1.declareFrom (fits_of_parentless rfl rfl rfl rfl) rfl ?_).1
      exact hnew

/-- **The types of an orderly catalogue are a family.** -/
theorem Orderly.family (h : Orderly c) : Descriptor.Family (Known c) := h.tidy.family

/-- Types implement only interfaces and the object type. -/
def ImplementsInterfaces (c : Catalog) : Prop :=
  ∀ d, Known c d → ∀ i ∈ d.interfaces, i.Implementable

theorem known_insert {x : Descriptor} (hx : Known (c.insert d) x) : x = d ∨ Known c x := by
  rw [Known, get?_insert] at hx
  split at hx
  · exact .inl (Option.some.inj hx).symm
  · exact .inr hx

/-- A type that becomes known because it is mentioned implements nothing. -/
theorem ImplementsInterfaces.typeOf (hi : c.ImplementsInterfaces) (t : HostType) :
    (c.typeOf t).2.ImplementsInterfaces := by
  intro x hx
  unfold Catalog.typeOf at hx
  split at hx
  · exact hi x hx
  · rcases known_insert hx with rfl | hx
    · exact nofun
    · exact hi x hx

theorem ImplementsInterfaces.runtimeType (hi : c.ImplementsInterfaces) (v : Value) :
    (c.runtimeType v).2.ImplementsInterfaces := by
  cases v <;> exact hi.typeOf _

/-- A type that is known is what `typeOf` finds. -/
theorem Tidy.known_typeOf (h : Tidy c) {t : HostType} (ht : (c.get? (.host t)).isSome = true) :
    Known c (c.typeOf t).1 := by
  obtain ⟨d, hd⟩ := Option.isSome_iff_exists.mp ht
  have htypeOf : c.typeOf t = (d, c) := by
    unfold Catalog.typeOf
    rw [hd]
  have hknown := (h.typeOf t).2.2
  rwa [htypeOf] at hknown ⊢

theorem mem_of_find? {κ α : Type} [DecidableEq κ] {k : κ} {v : α} : ∀ {es : List (κ × α)},
    Table.find? k es = some v → (k, v) ∈ es := by
  intro es
  induction es with
  | nil => intro h; cases h
  | cons e es ih =>
      intro h
      obtain ⟨k', v'⟩ := e
      unfold Table.find? at h
      split at h
      · next hk => cases h; rw [hk]; exact List.mem_cons_self
      · exact List.mem_cons_of_mem _ (ih h)

/-- Whether only interfaces are implemented can be seen from the entries. -/
theorem implementsInterfaces_of_entries
    (h : (c.types.entries.all fun e => e.2.interfaces.all (·.isInterface)) = true) :
    ImplementsInterfaces c := by
  intro d hd i hi
  left
  exact List.all_eq_true.mp (List.all_eq_true.mp h _ (mem_of_find? hd)) i hi

/-- Short paths for the types that are known from the beginning. -/
def shortPaths : HostSpelling :=
  ⟨"String", "Duration", "Time", "Uuid", "Type", "Method", "Object", "Display", "Option", "Array"⟩

theorem Orderly.plain (h : Orderly c) (hi : c.ImplementsInterfaces) :
    Descriptor.Plain (Known c) :=
  ⟨fun i d hd hmem => hi d hd i hmem, h.tidy.interface⟩

end Catalog
end ValueText
