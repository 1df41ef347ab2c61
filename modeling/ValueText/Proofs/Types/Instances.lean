/-
  ValueText.Proofs.Types.Instances — instances of generic definitions and their arguments.

  A catalogue hands out descriptors, and declarations refer to what was handed out.  A type
  can be declared again, so that descriptors of one key but of different content are in
  use.  Types with a name as their key are never declared, and keep their descriptor.
  Generic definitions are among them.

  Optional types and arrays have one argument, as their definitions ask for.  What a
  declaration says to be an instance is taken as it is: nobody counts the arguments.

      Issues    a catalogue that was built in any order, with what it handed out
      Standing  what all descriptors that were handed out keep to

  Main results:

    • `Standing.same`    a generic definition has one descriptor only;
    • `Issues.standing`  an instance has as many arguments as its definition asks for,
                         unless a declaration named it with just these arguments;
    • `Issues.misfits`   and such arguments are too many or too few.
-/
import ValueText.Proofs.Types.Links
import ValueText.Proofs.Types.Optional

namespace ValueText.Catalog

open Descriptor (Parent Ancestor objectType)

/-! ## §1. Building in any order. -/

/-- The instance that a clause makes of a type. -/
def Clause.instance? : Clause → Option (Descriptor × List Descriptor)
  | .instanceOf definition arguments => some (definition, arguments)
  | _ => none

/-- The instances that clauses name. -/
def instancesIn (clauses : List Clause) : List (Descriptor × List Descriptor) :=
  clauses.filterMap Clause.instance?

/-- The instances that clauses name with another number of arguments than the definition asks
for. -/
def misfits (clauses : List Clause) : List (Descriptor × List Descriptor) :=
  (instancesIn clauses).filter fun i => i.2.length ≠ i.1.facts.arity

/-- The descriptors of `H`, and one more. -/
def With (H : Descriptor → Prop) (d : Descriptor) : Descriptor → Prop := fun x => x = d ∨ H x

/-- The descriptors that a catalogue can hand out from the beginning: those of the types that it
starts with, and those of types that are known by their path only. -/
def Predeclared (spelling : HostSpelling) (parts : Parts) (d : Descriptor) : Prop :=
  Known (new spelling parts) d ∨ ∃ t, d = (new spelling parts).blank t

/-- A catalogue that was built in any order, types being declared again and again.  `H` is what it
handed out, and declarations refer to definitions of `H`; `is` are the instances that they named
with a wrong number of arguments. -/
inductive Issues : List (Descriptor × List Descriptor) → (Descriptor → Prop) → Catalog → Prop
  | new (spelling : HostSpelling) (parts : Parts) :
      Issues [] (Predeclared spelling parts) (new spelling parts)
  | typeOf {is H} {c : Catalog} (t : HostType) : Issues is H c → Issues is H (c.typeOf t).2
  | describe {is H} {c : Catalog} (t : HostType) : Issues is H c → Issues is H (c.describe t).2
  | genericDefinition {is H} {c : Catalog} (space : Option String) (name : String) (arity : Nat) :
      Issues is H c → Issues is (With H (c.genericDefinition space name arity).1)
        (c.genericDefinition space name arity).2
  | genericParameter {is H} {c : Catalog} (name : String) : Issues is H c →
      Issues is (With H (c.genericParameter name).1) (c.genericParameter name).2
  | pointerTo {is H} {c : Catalog} (d : Descriptor) : Issues is H c →
      Issues is (With H (c.pointerTo d).1) (c.pointerTo d).2
  | byRef {is H} {c : Catalog} (d : Descriptor) : Issues is H c →
      Issues is (With H (c.byRef d).1) (c.byRef d).2
  | declare {is H} {c : Catalog} (t : HostType) (clauses : List Clause) : Issues is H c →
      (∀ i ∈ instancesIn clauses, H i.1) →
      Issues (misfits clauses ++ is) (With H (c.declare t clauses).1) (c.declare t clauses).2
  | declareEnumeration {is H} {c : Catalog} (t : HostType) (members : Enumeration.Declared)
      (clauses : List Clause) : Issues is H c → (∀ i ∈ instancesIn clauses, H i.1) →
      Issues (misfits clauses ++ is) (With H (c.declareEnumeration t members clauses).1)
        (c.declareEnumeration t members clauses).2
  | declareInterface {is H} {c : Catalog} (t : HostType) (clauses : List Clause) : Issues is H c →
      (∀ i ∈ instancesIn clauses, H i.1) →
      Issues (misfits clauses ++ is) (With H (c.declareInterface t clauses).1)
        (c.declareInterface t clauses).2
  | declareNullable {is H} {c : Catalog} (t : HostType) : Issues is H c →
      Issues is (With H (c.declareNullable t).1) (c.declareNullable t).2
  | declareArray {is H} {c : Catalog} (t : HostType) : Issues is H c →
      Issues is (With H (c.declareArray t).1) (c.declareArray t).2

/-! ## §2. What was handed out. -/

variable {c : Catalog} {d x : Descriptor} {H H' : Descriptor → Prop}
  {is js : List (Descriptor × List Descriptor)}

theorem with_eq (hd : H d) : With H d = H := by
  funext x
  refine propext ⟨?_, .inr⟩
  rintro (rfl | hx)
  · exact hd
  · exact hx

/-- The arguments are as many as the definition asks for, or are one of the exceptions. -/
def Fitted (is : List (Descriptor × List Descriptor)) (g : Descriptor)
    (arguments : List Descriptor) : Prop :=
  arguments.length = g.facts.arity ∨ (g, arguments) ∈ is

theorem fitted_misfits {clauses : List Clause} {i : Descriptor × List Descriptor}
    (hi : i ∈ instancesIn clauses) : Fitted (misfits clauses ++ is) i.1 i.2 := by
  by_cases hcount : i.2.length = i.1.facts.arity
  · exact .inl hcount
  · exact .inr (List.mem_append_left _ (List.mem_filter.mpr ⟨hi, decide_eq_true hcount⟩))

/-- What a descriptor refers to was handed out, and its arguments fit.  Generic definitions have
names as their keys. -/
structure Made (is : List (Descriptor × List Descriptor)) (H : Descriptor → Prop)
    (d : Descriptor) : Prop where
  parents : ∀ p, Parent p d → H p
  generic : d.isGenericDefinition = true → ∃ n, d.key = .named n
  fits : ∀ g, d.definition = some g → H g ∧ Fitted is g d.genericArguments

/-- What a catalogue handed out: the descriptors that it has, those of types that are known by their
path only, and earlier ones; but a type with a name has no earlier one. -/
structure Standing (is : List (Descriptor × List Descriptor)) (H : Descriptor → Prop)
    (c : Catalog) : Prop where
  known : ∀ k d, c.get? k = some d → d.key = k ∧ H d
  blank : ∀ t, H (c.blank t)
  object : H objectType
  array : H arrayMarker
  nullable : H nullableDefinition
  named : ∀ d n, H d → d.key = .named n → c.get? (.named n) = some d
  made : ∀ d, H d → Made is H d

theorem Made.mono (h : Made is H d) (hH : ∀ x, H x → H' x) (his : ∀ i ∈ is, i ∈ js) :
    Made js H' d :=
  ⟨fun p hp => hH p (h.parents p hp), h.generic,
    fun g hg => (h.fits g hg).imp (hH g) fun hfits => hfits.imp id (his _)⟩

theorem made_blank (c : Catalog) (t : HostType) : Made is H (c.blank t) := by
  refine ⟨fun p hp => absurd hp (not_parent_of_parentless rfl rfl p), fun h => ?_, nofun⟩
  simp only [Catalog.blank, Descriptor.isGenericDefinition, Descriptor.kind] at h
  split at h <;> cases h

/-- A type that is made from others, and is no instance. -/
theorem made_of_named (hbase : d.base = none) (hinterfaces : d.interfaces = [])
    (hdefinition : d.definition = none) {n : String} (hkey : d.key = .named n) : Made is H d := by
  refine ⟨fun p hp => absurd hp (not_parent_of_parentless hbase hinterfaces p),
    fun _ => ⟨n, hkey⟩, fun g hg => ?_⟩
  rw [hdefinition] at hg
  cases hg

namespace Standing

/-- **A generic definition has one descriptor only.** -/
theorem same (h : Standing is H c) {g r : Descriptor} (hg : H g) (hr : H r) (hkey : g.key = r.key)
    (hgeneric : r.isGenericDefinition = true) : g = r := by
  obtain ⟨n, hn⟩ := (h.made r hr).generic hgeneric
  have hknown := h.named g n hg (hkey.trans hn)
  rw [h.named r n hr hn] at hknown
  exact (Option.some.inj hknown).symm

theorem ancestor (h : Standing is H c) (ha : Ancestor d x) (hx : H x) : H d := by
  induction ha using Relation.TransGen.head_induction_on with
  | single hp => exact (h.made _ hx).parents _ hp
  | head hp _ ih => exact (h.made _ ih).parents _ hp

/-- The types of a chain were handed out with the first of them. -/
theorem mem_chain (h : Standing is H c) (hx : H x) (hd : d ∈ x.chain) : H d := by
  rcases List.mem_cons.mp hd with rfl | hd
  · exact hx
  rcases Descriptor.mem_supertypes hd with ha | ⟨-, rfl⟩
  · exact h.ancestor ha hx
  · exact h.object

/-- More instances may be named. -/
theorem more (h : Standing is H c) (his : ∀ i ∈ is, i ∈ js) : Standing js H c :=
  { h with made := fun d hd => (h.made d hd).mono (fun _ hx => hx) his }

/-- Links do not matter. -/
theorem relinked (h : Standing is H c) (ls : Table (TypeKey × TypeKey) Link) :
    Standing is H { c with links := ls } :=
  ⟨h.known, h.blank, h.object, h.array, h.nullable, h.named, h.made⟩

/-- What was handed out is handed out again. -/
theorem again (h : Standing is H c) (hd : H d) : Standing is (With H d) c := by
  rwa [with_eq hd]

/-- **A descriptor is handed out for the first time**: that of a new type, or another one of a host
type. -/
theorem issue (h : Standing is H c) (hd : Made is H d)
    (hnew : ∀ n, d.key = .named n → c.get? (.named n) = none) :
    Standing is (With H d) (c.insert d) := by
  refine ⟨fun k x hx => ?_, fun t => .inr (h.blank t), .inr h.object, .inr h.array,
    .inr h.nullable, fun x n hx hn => ?_, fun x hx => ?_⟩
  · rw [get?_insert] at hx
    split at hx
    · next hkey =>
        cases hx
        exact ⟨hkey, .inl rfl⟩
    · exact (h.known k x hx).imp id .inr
  · rw [get?_insert]
    rcases hx with rfl | hx
    · rw [if_pos hn]
    · have hget := h.named x n hx hn
      rw [if_neg, hget]
      intro hkey
      rw [hnew n hkey] at hget
      cases hget
  · refine Made.mono ?_ (fun y hy => .inr hy) fun i hi => hi
    rcases hx with rfl | hx
    · exact hd
    · exact h.made x hx

/-- A host type gets a descriptor that was handed out before. -/
theorem insert (h : Standing is H c) (hd : H d) {t : HostType} (hkey : d.key = .host t) :
    Standing is H (c.insert d) := by
  have hissue := h.issue (h.made d hd) fun n hn => by
    rw [hkey] at hn
    cases hn
  rwa [with_eq hd] at hissue

theorem typeOf (h : Standing is H c) (t : HostType) :
    Standing is H (c.typeOf t).2 ∧ H (c.typeOf t).1 := by
  unfold Catalog.typeOf
  split
  · next d hd => exact ⟨h, (h.known _ d hd).2⟩
  · exact ⟨h.insert (h.blank t) rfl, h.blank t⟩

/-- A type with a name is handed out. -/
theorem nameIssued (h : Standing is H c) {key : String} {make : TypeKey → Descriptor}
    (hkey : (make (.named key)).key = .named key) (hmade : Made is H (make (.named key))) :
    Standing is (With H (c.named key make).1) (c.named key make).2 := by
  unfold Catalog.named
  split
  · next d hd => exact h.again (h.known _ d hd).2
  · next hnone =>
      refine h.issue hmade fun n hn => ?_
      cases hkey.symm.trans hn
      exact hnone

end Standing

/-! ## §3. Declarations. -/

/-- The descriptor of a draft, with no other arguments than the ones that a clause names. -/
structure Drafting (is : List (Descriptor × List Descriptor)) (H : Descriptor → Prop)
    (d : Descriptor) : Prop where
  host : ∃ t, d.key = .host t
  element : d.element = none
  kind : d.kind ≠ .genericDefinition ∧ d.kind ≠ .array
  parents : ∀ p, Parent p d → H p
  fits : ∀ g, d.definition = some g → H g ∧ Fitted is g d.arguments

namespace Drafting

theorem isGenericDefinition (h : Drafting is H d) : d.isGenericDefinition = false := by
  unfold Descriptor.isGenericDefinition
  rw [decide_eq_false h.kind.1, decide_eq_false h.kind.2]
  rfl

theorem genericArguments (h : Drafting is H d) : d.genericArguments = d.arguments := by
  unfold Descriptor.genericArguments
  rw [h.element]
  cases d.kind <;> rfl

theorem made (h : Drafting is H d) : Made is H d := by
  refine ⟨h.parents, fun hgeneric => ?_, fun g hg => ?_⟩
  · rw [h.isGenericDefinition] at hgeneric
    cases hgeneric
  · rw [h.genericArguments]
    exact h.fits g hg

theorem more (h : Drafting is H d) (his : ∀ i ∈ is, i ∈ js) : Drafting js H d :=
  { h with fits := fun g hg => (h.fits g hg).imp id fun hfits => hfits.imp id (his _) }

/-- What a declaration starts with. -/
theorem start {t : HostType} (hkey : d.key = .host t)
    (hkind : d.kind ≠ .genericDefinition ∧ d.kind ≠ .array) (helement : d.element = none)
    (hbase : d.base = none) (hinterfaces : d.interfaces = []) (hdefinition : d.definition = none) :
    Drafting is H d := by
  refine ⟨⟨t, hkey⟩, helement, hkind,
    fun p hp => absurd hp (not_parent_of_parentless hbase hinterfaces p), fun g hg => ?_⟩
  rw [hdefinition] at hg
  cases hg

/-- **A clause keeps a draft in shape**, if it refers to what was handed out. -/
theorem add {d : Draft} (h : Drafting is H d.descriptor) {clause : Clause}
    (hmention : clause.isFact = false → ∀ t, H (c.typeOf t).1)
    (hinstance : ∀ i, clause.instance? = some i → H i.1 ∧ Fitted is i.1 i.2) :
    Drafting is H (d.add c clause).1.descriptor := by
  cases clause with
  | name | space | noSpace | abstractType | anonymous | property | displayable | nestedIn =>
      exact ⟨h.host, h.element, h.kind, h.parents, h.fits⟩
  | valueType | primitive => exact ⟨h.host, h.element, ⟨nofun, nofun⟩, h.parents, h.fits⟩
  | base t =>
      refine ⟨h.host, h.element, h.kind, ?_, h.fits⟩
      rintro p (hp | hp)
      · cases hp
        exact hmention rfl t
      · exact h.parents p (.inr hp)
  | implements t =>
      refine ⟨h.host, h.element, h.kind, ?_, h.fits⟩
      rintro p (hp | hp)
      · exact h.parents p (.inl hp)
      · rcases List.mem_append.mp hp with hp | hp
        · exact h.parents p (.inr hp)
        · rw [List.mem_singleton.mp hp]
          exact hmention rfl t
  | instanceOf g arguments =>
      refine ⟨h.host, h.element, h.kind, h.parents, fun g' hg' => ?_⟩
      cases hg'
      exact hinstance _ rfl

/-- Facts do not refer to anything. -/
theorem addFacts {clauses : List Clause} (hs : clauses.all Clause.isFact = true) :
    ∀ {c : Catalog} {d : Draft}, Drafting is H d.descriptor →
      Drafting is H (d.addAll c clauses).1.descriptor := by
  induction clauses with
  | nil => exact fun h => h
  | cons clause rest ih =>
      rw [List.all_cons, Bool.and_eq_true] at hs
      intro c d h
      refine ih hs.2 (h.add (c := c) (fun hno => ?_) fun i hi => ?_)
      · rw [hs.1] at hno
        cases hno
      · cases clause with
        | instanceOf => cases hs.1
        | _ => cases hi

end Drafting

/-- **The clauses of a declaration keep what was handed out, and the draft.** -/
theorem Standing.addAll (clauses : List Clause) : ∀ {c : Catalog} {d : Draft}, Standing is H c →
    Drafting is H d.descriptor → (∀ i ∈ instancesIn clauses, H i.1 ∧ Fitted is i.1 i.2) →
    Standing is H (d.addAll c clauses).2 ∧ Drafting is H (d.addAll c clauses).1.descriptor := by
  induction clauses with
  | nil => exact fun h hd _ => ⟨h, hd⟩
  | cons clause rest ih =>
      intro c d h hd hinstances
      have hcatalog : Standing is H (d.add c clause).2 := by
        cases clause with
        | nestedIn t | base t | implements t => exact (h.typeOf t).1
        | _ => exact h
      refine ih hcatalog (hd.add (fun _ t => (h.typeOf t).2) fun i hi => ?_) fun i hi => ?_
      · exact hinstances i (List.mem_filterMap.mpr ⟨clause, List.mem_cons_self, hi⟩)
      · obtain ⟨k, hk, hi⟩ := List.mem_filterMap.mp hi
        exact hinstances i (List.mem_filterMap.mpr ⟨k, List.mem_cons_of_mem _ hk, hi⟩)

theorem foldl_insertLink (source : TypeKey) (links : List (TypeKey × Link)) : ∀ c : Catalog,
    ∃ ls, links.foldl (fun c l => c.insertLink source l.1 l.2) c = { c with links := ls } := by
  induction links with
  | nil => exact fun c => ⟨c.links, rfl⟩
  | cons l rest ih =>
      intro c
      obtain ⟨ls, hls⟩ := ih (c.insertLink source l.1 l.2)
      exact ⟨ls, hls⟩

/-- **A draft is published.** -/
theorem Standing.publish (h : Standing is H c) {d : Draft} (hd : Made is H d.descriptor)
    {t : HostType} (hkey : d.descriptor.key = .host t) :
    Standing is (With H (c.publish d).1) (c.publish d).2 := by
  obtain ⟨ls, hls⟩ := foldl_insertLink d.descriptor.key d.links c
  unfold Catalog.publish
  rw [hls]
  refine (h.issue hd fun n hn => ?_).relinked ls
  rw [hkey] at hn
  cases hn

/-- The clauses of a declaration may name misfits. -/
theorem Standing.drafted (h : Standing is H c) {t : HostType} (hd : Drafting is H d)
    {clauses : List Clause} (hclauses : ∀ i ∈ instancesIn clauses, H i.1) :
    Standing (misfits clauses ++ is) H (Draft.addAll c ⟨t, d, []⟩ clauses).2 ∧
      Drafting (misfits clauses ++ is) H (Draft.addAll c ⟨t, d, []⟩ clauses).1.descriptor := by
  refine (h.more fun i hi => List.mem_append_right _ hi).addAll clauses
    (hd.more fun i hi => List.mem_append_right _ hi) fun i hi => ?_
  exact ⟨hclauses i hi, fitted_misfits hi⟩

theorem Standing.declareFrom (h : Standing is H c) {t : HostType} (hd : Drafting is H d)
    {clauses : List Clause} (hclauses : ∀ i ∈ instancesIn clauses, H i.1) :
    Standing (misfits clauses ++ is) (With H (c.declareFrom t d clauses).1)
      (c.declareFrom t d clauses).2 := by
  obtain ⟨hcatalog, hdraft⟩ := h.drafted (t := t) hd hclauses
  obtain ⟨t', hkey⟩ := hdraft.host
  exact (hcatalog.relinked _).publish hdraft.made hkey

theorem Standing.declareInterface (h : Standing is H c) (t : HostType) {clauses : List Clause}
    (hclauses : ∀ i ∈ instancesIn clauses, H i.1) :
    Standing (misfits clauses ++ is) (With H (c.declareInterface t clauses).1)
      (c.declareInterface t clauses).2 := by
  have hstart : Drafting is H (c.start t .interface) := .start rfl ⟨nofun, nofun⟩ rfl rfl rfl rfl
  obtain ⟨hcatalog, hdraft⟩ := h.drafted (t := t) hstart hclauses
  obtain ⟨t', hkey⟩ := hdraft.host
  exact hcatalog.publish hdraft.made hkey

/-- A type is declared without clauses. -/
theorem Standing.declareInstance (h : Standing is H c) {t t' : HostType} (hkey : d.key = .host t')
    (hd : Made is H d) : Standing is (With H (c.declareFrom t d []).1) (c.declareFrom t d []).2 :=
  (h.relinked _).publish (d := ⟨t, d, []⟩) hd hkey

/-- Optional types have one argument, as their definition asks for. -/
theorem made_optionalType (h : H nullableDefinition) (inner : Descriptor) (t : HostType) :
    Made is H (optionalType inner t) := by
  refine ⟨fun p hp => absurd hp (not_parent_of_parentless rfl rfl p), nofun, fun g hg => ?_⟩
  cases hg
  exact ⟨h, .inl rfl⟩

/-- The descriptor that an array type is declared with. -/
def arrayType (element : Descriptor) (t : HostType) : Descriptor :=
  { facts := { key := .host (.array t), name := element.name ++ "[]", kind := .array }
    definition := some arrayMarker
    element := some element
    sequence := some element }

/-- The only argument of an array type is the type of its elements, and one is what the marker of
array types asks for. -/
theorem made_arrayType (h : H arrayMarker) (element : Descriptor) (t : HostType) :
    Made is H (arrayType element t) := by
  refine ⟨fun p hp => absurd hp (not_parent_of_parentless rfl rfl p), nofun, fun g hg => ?_⟩
  cases hg
  exact ⟨h, .inl rfl⟩

theorem Standing.declareNullable (h : Standing is H c) (t : HostType) :
    Standing is (With H (c.declareNullable t).1) (c.declareNullable t).2 :=
  (h.typeOf t).1.declareInstance rfl (made_optionalType h.nullable (c.typeOf t).1 t)

theorem Standing.declareArray (h : Standing is H c) (t : HostType) :
    Standing is (With H (c.declareArray t).1) (c.declareArray t).2 :=
  (h.typeOf t).1.declareInstance rfl (made_arrayType h.array (c.typeOf t).1 t)

/-! ## §4. The first catalogue. -/

/-- A catalogue that the first one is made of: optional types are its only instances. -/
structure Seeded (c : Catalog) : Prop where
  array : Known c arrayMarker
  nullable : Known c nullableDefinition
  made : ∀ k d, c.get? k = some d → Made [] (· = nullableDefinition) d

namespace Seeded

theorem of_types {c' : Catalog} (h : Seeded c) (hc : c'.types = c.types) : Seeded c' := by
  have hget (k : TypeKey) : c'.get? k = c.get? k := by rw [get?, get?, hc]
  exact ⟨(hget _).trans h.array, (hget _).trans h.nullable,
    fun k d hd => h.made k d ((hget k).symm.trans hd)⟩

theorem insert (h : Seeded c) (hd : Made [] (· = nullableDefinition) d) {t : HostType}
    (hkey : d.key = .host t) : Seeded (c.insert d) := by
  have hother {x : Descriptor} {n : String} (hx : Known c x) (hn : x.key = .named n) :
      Known (c.insert d) x := by
    rw [Known, get?_insert, if_neg, hx]
    rw [hkey, hn]
    intro hc
    cases hc
  refine ⟨hother h.array rfl, hother h.nullable rfl, fun k x hx => ?_⟩
  rw [get?_insert] at hx
  split at hx
  · cases hx
    exact hd
  · exact h.made k x hx

theorem typeOf (h : Seeded c) (t : HostType) : Seeded (c.typeOf t).2 := by
  unfold Catalog.typeOf
  split
  · exact h
  · exact h.insert (made_blank c t) rfl

/-- A type is declared of which only facts are said. -/
theorem published (h : Seeded c) {d : Draft}
    (hd : Drafting [] (· = nullableDefinition) d.descriptor) {clauses : List Clause}
    (hs : clauses.all Clause.isFact = true) {c' : Catalog}
    (hc' : c'.types = ((d.addAll c clauses).2.insert (d.addAll c clauses).1.descriptor).types) :
    Seeded c' := by
  have hdraft := Drafting.addFacts hs (c := c) hd
  obtain ⟨t, hkey⟩ := hdraft.host
  rw [(sameShape_addAll clauses hs).catalog] at hc'
  exact (h.insert hdraft.made hkey).of_types hc'

theorem declareDisplay (h : Seeded c) :
    Seeded (c.declareInterface .display [.name "IFormattable", .space "System"]).2 := by
  have hstart : Drafting [] (· = nullableDefinition) (c.start .display .interface) :=
    .start rfl ⟨nofun, nofun⟩ rfl rfl rfl rfl
  have hs : [Clause.name "IFormattable", .space "System"].all Clause.isFact = true := rfl
  refine h.published (d := ⟨.display, _, []⟩) hstart hs ?_
  unfold Catalog.declareInterface
  rw [types_publish]
  rfl

theorem withType (h : Seeded c) (t : HostType) (clauses : List Clause)
    (hs : clauses.all Clause.isFact = true) : Seeded (c.withType t clauses) := by
  refine h.published (d := ⟨t, c.start t .reference, []⟩)
    (.start rfl ⟨nofun, nofun⟩ rfl rfl rfl rfl) hs ?_
  unfold Catalog.withType declare Catalog.declareFrom
  rw [types_publish]
  rfl

theorem withNullable (h : Seeded c) (t : HostType) : Seeded (c.withNullable t) := by
  have hmade : Made [] (· = nullableDefinition) (optionalType (c.typeOf t).1 t) :=
    made_optionalType (H := (· = nullableDefinition)) rfl _ _
  refine ((h.typeOf t).insert hmade rfl).of_types ?_
  unfold Catalog.withNullable Catalog.declareNullable Catalog.declareFrom
  rw [types_publish]
  rfl

theorem withPrimitives (ps : List (HostType × String)) : ∀ {c : Catalog}, Seeded c →
    Seeded (ps.foldl (fun c p => c.withPrimitive p.1 p.2) c) := by
  induction ps with
  | nil => exact fun h => h
  | cons p ps ih => exact fun h => ih ((h.withType _ _ rfl).withNullable p.1)

end Seeded

/-- Optional types are the only instances in the beginning. -/
theorem seeded_new (spelling : HostSpelling) (parts : Parts) : Seeded (new spelling parts) := by
  have hmarkers : Seeded (((({ spelling := spelling, parts := parts } : Catalog).insert
      objectType).insert arrayMarker).insert nullableDefinition) := by
    refine ⟨rfl, rfl, fun k d hd => ?_⟩
    rw [get?_insert, get?_insert, get?_insert] at hd
    split at hd
    · cases hd
      exact made_of_named rfl rfl rfl rfl
    split at hd
    · cases hd
      exact made_of_named rfl rfl rfl rfl
    split at hd
    · cases hd
      exact Drafting.made (.start rfl ⟨nofun, nofun⟩ rfl rfl rfl rfl)
    · cases hd
  have hdisplay := hmarkers.declareDisplay
  unfold new
  dsimp only
  -- From the last type that is put in to the texts.
  refine Seeded.withType ?_ .method _ rfl
  refine Seeded.withType ?_ .typeInfo _ rfl
  refine Seeded.withNullable ?_ .uuid
  refine Seeded.withType ?_ .uuid _ rfl
  refine Seeded.withNullable ?_ .time
  refine Seeded.withType ?_ .time _ rfl
  refine Seeded.withNullable ?_ .duration
  refine Seeded.withType ?_ .duration _ rfl
  refine Seeded.withType ?_ .string _ rfl
  have htext := (hdisplay.withPrimitives primitives).insert
    (d := { facts := { key := .host .text, name := "String", space := some "System" } })
    (Drafting.made (.start rfl ⟨nofun, nofun⟩ rfl rfl rfl rfl)) rfl
  exact htext.of_types rfl

/-- **What the first catalogue can hand out stands.** -/
theorem standing_new (spelling : HostSpelling) (parts : Parts) :
    Standing [] (Predeclared spelling parts) (new spelling parts) := by
  have hseeded := seeded_new spelling parts
  have hflat := flat_new spelling parts
  refine ⟨fun k d hd => ⟨hflat.keyed k d hd, .inl ?_⟩, fun t => .inr ⟨t, rfl⟩, .inl hflat.object,
    .inl hseeded.array, .inl hseeded.nullable, ?_, ?_⟩
  · rw [Known, hflat.keyed k d hd]
    exact hd
  · rintro d n (hd | ⟨t, rfl⟩) hn
    · rw [← hn]
      exact hd
    · cases hn
  · rintro d (hd | ⟨t, rfl⟩)
    · refine (hseeded.made _ d hd).mono ?_ fun i hi => hi
      rintro x rfl
      exact .inl hseeded.nullable
    · exact made_blank _ t

/-! ## §5. Every catalogue. -/

/-- The exceptions do not have as many arguments as their definitions ask for. -/
theorem Issues.misfits (h : Issues is H c) : ∀ i ∈ is, i.2.length ≠ i.1.facts.arity := by
  have hmore {clauses : List Clause} {is : List (Descriptor × List Descriptor)}
      (ih : ∀ i ∈ is, i.2.length ≠ i.1.facts.arity) :
      ∀ i ∈ Catalog.misfits clauses ++ is, i.2.length ≠ i.1.facts.arity := by
    intro i hi
    rcases List.mem_append.mp hi with hi | hi
    · exact of_decide_eq_true (List.mem_filter.mp hi).2
    · exact ih i hi
  induction h with
  | new spelling parts => exact nofun
  | declare t clauses _ _ ih => exact hmore ih
  | declareEnumeration t members clauses _ _ ih => exact hmore ih
  | declareInterface t clauses _ _ ih => exact hmore ih
  | _ => assumption

/-- **An instance that was handed out has as many arguments as its definition asks for, unless a
declaration named it with just these arguments.** -/
theorem Issues.standing (h : Issues is H c) : Standing is H c := by
  induction h with
  | new spelling parts => exact standing_new spelling parts
  | typeOf t _ ih => exact (ih.typeOf t).1
  | describe t _ ih => exact (ih.typeOf t).1.relinked _
  | genericDefinition space name arity _ ih =>
      exact ih.nameIssued rfl (made_of_named rfl rfl rfl rfl)
  | genericParameter name _ ih => exact ih.nameIssued rfl (made_of_named rfl rfl rfl rfl)
  | pointerTo d _ ih => exact ih.nameIssued rfl (made_of_named rfl rfl rfl rfl)
  | byRef d _ ih => exact ih.nameIssued rfl (made_of_named rfl rfl rfl rfl)
  | declare t clauses _ hclauses ih =>
      refine ih.declareFrom ?_ hclauses
      exact .start rfl ⟨nofun, nofun⟩ rfl rfl rfl rfl
  | declareEnumeration t members clauses _ hclauses ih =>
      refine ih.declareFrom ?_ hclauses
      exact .start rfl ⟨nofun, nofun⟩ rfl rfl rfl rfl
  | declareInterface t clauses _ hclauses ih => exact ih.declareInterface t hclauses
  | declareNullable t _ ih => exact ih.declareNullable t
  | declareArray t _ ih => exact ih.declareArray t

end ValueText.Catalog
