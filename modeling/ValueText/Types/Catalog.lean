/-
  ValueText.Types.Catalog — the types that are known.

  A catalogue maps type keys to descriptors, and pairs of keys to links, ways to
  see values of one type as another.  It starts with the types of the namespace
  `System`.  A type that nobody declared is described from its path when it is
  asked for.

  Which part of a value belongs to a base type is for the host to say (`Parts`).

  Main definitions:

    • `typeOf`     the descriptor of a host type;
    • `describe`   the same for a value's own type, which can then be seen as itself;
    • `declare`    publishes a type from the clauses of its declaration;
    • `route`      the conversions that lead from a value's type to another.
-/
import ValueText.Table
import ValueText.Types.Value

namespace ValueText

/-! ## §1. Links. -/

/-- A declared conversion to a supertype. -/
inductive Caster
  /-- The part of the value that belongs to the base type. -/
  | toBase (target : HostType)
  /-- The same value seen through an interface. -/
  | toInterface (target : HostType)
  deriving DecidableEq, Repr

/-- How the host gets at the part of a value that belongs to a base type: of what is seen as a
type it makes a view as the base type, for each of them. -/
structure Parts where
  part (base : HostType) (v : View) : View
  type_part (base : HostType) (v : View) : (part base v).type = base

/-- The part of an object is an object with the same data, or its text.  Of the parts of other
values only their types are known. -/
def Parts.ofObjects : Parts where
  part
    | .string, .plain (.object _ text _ _ _) => .plain (.string text)
    | .other path, .plain (.object _ text number ends members) =>
        .plain (.object path text number ends members)
    | base, v => .through base v.value
  type_part base v := by split <;> rfl

/-- Converts a view. -/
def Caster.apply (parts : Parts) : Caster → View → View
  | .toBase t, v => parts.part t v
  | .toInterface t, v => .through t v.value

/-- Converts a view by one conversion after another. -/
def Parts.follow (parts : Parts) (casters : List Caster) (v : View) : View :=
  casters.foldl (fun v k => k.apply parts v) v

/-- A way to see a value of one type as another. -/
inductive Link
  /-- A value of exactly the type is seen as itself. -/
  | identity
  /-- Every text is seen as borrowed text. -/
  | textIdentity
  /-- The value is first seen as the source of the link. -/
  | upcast (caster : Caster)
  deriving DecidableEq, Repr

/-! ## §2. Looking up and describing. -/

/-- The types that are known. -/
structure Catalog where
  spelling : HostSpelling
  parts : Parts := .ofObjects
  types : Table TypeKey Descriptor := .empty
  /-- Links by source and target. -/
  links : Table (TypeKey × TypeKey) Link := .empty

namespace Catalog

/-- The marker that stands for all array types. -/
def arrayMarker : Descriptor :=
  { facts := { key := .named "[]", name := "Array", space := some "System", kind := .array,
               arity := 1 } }

/-- The definition that all optional types are instances of. -/
def nullableDefinition : Descriptor :=
  { facts := { key := .named "System.Nullable`1", name := "Nullable`1", space := some "System",
               kind := .genericDefinition, arity := 1 } }

/-- The descriptor with a key. -/
def get? (c : Catalog) (k : TypeKey) : Option Descriptor := c.types.get? k

/-- The number of types that are known. -/
def size (c : Catalog) : Nat := c.types.size

/-- Makes a descriptor known; one with the same key is replaced. -/
def insert (c : Catalog) (d : Descriptor) : Catalog := { c with types := c.types.set d.key d }

/-- Adds a link; one with the same ends is replaced. -/
def insertLink (c : Catalog) (source target : TypeKey) (l : Link) : Catalog :=
  { c with links := c.links.set (source, target) l }

/-- The descriptor of a type that is known by its path only. -/
def blank (c : Catalog) (t : HostType) : Descriptor :=
  let p := TypePath.split (t.path c.spelling)
  { facts := { key := .host t, name := p.name, space := p.space,
               kind := if p.isInterface then .interface else .reference } }

/-- The descriptor of a host type. -/
def typeOf (c : Catalog) (t : HostType) : Descriptor × Catalog :=
  match c.get? (.host t) with
  | some d => (d, c)
  | none => (c.blank t, c.insert (c.blank t))

/-- The descriptor of a host type that values can have. -/
def describe (c : Catalog) (t : HostType) : Descriptor × Catalog :=
  let (d, c) := c.typeOf t
  (d, { c with links := c.links.insertNew (d.key, d.key) .identity })

/-- The descriptor of a value's own type. -/
def runtimeType (c : Catalog) (v : Value) : Descriptor × Catalog :=
  match v with
  | .text _ => c.typeOf .text
  | v => c.describe v.type

/-- A value with its own type. -/
def typed (c : Catalog) (v : Value) : TypedValue × Catalog :=
  let (d, c) := c.runtimeType v
  (⟨v, d⟩, c)

/-- The descriptor with a name as its key, made if there is none. -/
def named (c : Catalog) (key : String) (make : TypeKey → Descriptor) : Descriptor × Catalog :=
  match c.get? (.named key) with
  | some d => (d, c)
  | none => (make (.named key), c.insert (make (.named key)))

/-- A generic definition. -/
def genericDefinition (c : Catalog) (space : Option String) (name : String) (arity : Nat) :
    Descriptor × Catalog :=
  let name := name ++ "`" ++ Numeral.ofNat arity
  let key := match space with
    | some s => s ++ "." ++ name
    | none => name
  c.named key fun k =>
    { facts := { key := k, name := name, space := space, kind := .genericDefinition,
                 arity := arity } }

/-- A free type parameter. -/
def genericParameter (c : Catalog) (name : String) : Descriptor × Catalog :=
  c.named ("!" ++ name) fun k => { facts := { key := k, name := name, kind := .genericParameter } }

/-- The type of pointers to values of a type. -/
def pointerTo (c : Catalog) (d : Descriptor) : Descriptor × Catalog :=
  c.named (d.fullName ++ "*") fun k =>
    { facts := { key := k, name := d.name ++ "*", kind := .pointer }, element := some d }

/-- The by-reference form of a type. -/
def byRef (c : Catalog) (d : Descriptor) : Descriptor × Catalog :=
  c.named (d.fullName ++ "&") fun k =>
    { facts := { key := k, name := d.name ++ "&", kind := .byRef }, element := some d }

/-! ## §3. Declarations. -/

/-- A clause of a declaration. -/
inductive Clause
  | name (s : String)
  | space (s : String)
  | noSpace
  | nestedIn (t : HostType)
  | valueType
  | primitive
  | abstractType
  | anonymous
  | base (t : HostType)
  | implements (t : HostType)
  | instanceOf (definition : Descriptor) (arguments : List Descriptor)
  | property (name : String) (source : PropertySource)
  | displayable

/-- A declaration as far as it was read. -/
structure Draft where
  type : HostType
  descriptor : Descriptor
  links : List (TypeKey × Link) := []

namespace Draft

/-- Changes what the descriptor says without referring to other types. -/
def modify (d : Draft) (f : TypeFacts → TypeFacts) : Draft :=
  { d with descriptor := { d.descriptor with facts := f d.descriptor.facts } }

/-- Adds a link to a supertype. -/
def link (d : Draft) (target : Descriptor) (caster : Caster) : Draft :=
  { d with links := d.links ++ [(target.key, .upcast caster)] }

/-- Adds a clause. -/
def add (c : Catalog) (d : Draft) : Clause → Draft × Catalog
  | .name s => (d.modify ({ · with name := s }), c)
  | .space s => (d.modify ({ · with space := some s }), c)
  | .noSpace => (d.modify ({ · with space := none }), c)
  | .nestedIn t =>
      let (o, c) := c.typeOf t
      ({ d with descriptor := { d.descriptor with outer := some o } }, c)
  | .valueType => (d.modify ({ · with kind := .struct }), c)
  | .primitive => (d.modify ({ · with kind := .primitive }), c)
  | .abstractType => (d.modify ({ · with isAbstract := true }), c)
  | .anonymous => (d.modify ({ · with isAnonymous := true }), c)
  | .base t =>
      let (b, c) := c.typeOf t
      (({ d with descriptor := { d.descriptor with base := some b } } : Draft).link b (.toBase t), c)
  | .implements t =>
      let (i, c) := c.typeOf t
      (({ d with descriptor :=
            { d.descriptor with interfaces := d.descriptor.interfaces ++ [i] } } : Draft).link i
          (.toInterface t), c)
  | .instanceOf definition arguments =>
      let d := d.modify ({ · with name := definition.name, space := definition.facts.space })
      ({ d with descriptor :=
          { d.descriptor with definition := some definition, arguments := arguments } }, c)
  | .property name source =>
      (d.modify fun f => { f with properties := f.properties ++ [⟨name, d.type, source⟩] }, c)
  | .displayable => (d.modify ({ · with hasDisplay := true }), c)

/-- Adds clauses, one after another. -/
def addAll (c : Catalog) (d : Draft) : List Clause → Draft × Catalog
  | [] => (d, c)
  | clause :: rest =>
      let (d, c) := d.add c clause
      d.addAll c rest

end Draft

/-- Makes a draft known, with its links. -/
def publish (c : Catalog) (d : Draft) : Descriptor × Catalog :=
  let c := d.links.foldl (fun c l => c.insertLink d.descriptor.key l.1 l.2) c
  (d.descriptor, c.insert d.descriptor)

/-- Publishes the draft that clauses make of a descriptor.  Values of the type
can be seen as themselves. -/
def declareFrom (c : Catalog) (t : HostType) (start : Descriptor) (clauses : List Clause) :
    Descriptor × Catalog :=
  let (d, c) := Draft.addAll c ⟨t, start, []⟩ clauses
  (c.insertLink d.descriptor.key d.descriptor.key .identity).publish d

/-- The descriptor that a declaration starts with. -/
def start (c : Catalog) (t : HostType) (kind : TypeKind) : Descriptor :=
  let d := c.blank t
  { d with facts := { d.facts with kind := kind } }

/-- Declares a type. -/
def declare (c : Catalog) (t : HostType) (clauses : List Clause) : Descriptor × Catalog :=
  c.declareFrom t (c.start t .reference) clauses

/-- Declares an enumeration. -/
def declareEnumeration (c : Catalog) (t : HostType) (members : Enumeration.Declared)
    (clauses : List Clause) : Descriptor × Catalog :=
  let d := c.start t .enumeration
  c.declareFrom t { d with facts := { d.facts with enumeration := some ⟨t, members⟩ } } clauses

/-- Declares an interface. -/
def declareInterface (c : Catalog) (t : HostType) (clauses : List Clause) : Descriptor × Catalog :=
  let (d, c) := Draft.addAll c ⟨t, c.start t .interface, []⟩ clauses
  c.publish d

/-- Declares the optional type of a type. -/
def declareNullable (c : Catalog) (t : HostType) : Descriptor × Catalog :=
  let (inner, c) := c.typeOf t
  c.declareFrom (.option t)
    { facts := { key := .host (.option t), name := nullableDefinition.name, space := some "System",
                 kind := .struct }
      definition := some nullableDefinition
      arguments := [inner]
      nullable := some inner } []

/-- Declares the array type of a type. -/
def declareArray (c : Catalog) (t : HostType) : Descriptor × Catalog :=
  let (element, c) := c.typeOf t
  c.declareFrom (.array t)
    { facts := { key := .host (.array t), name := element.name ++ "[]", kind := .array }
      definition := some arrayMarker
      element := some element
      sequence := some element } []

/-! ## §4. The types that are known from the beginning. -/

/-- A primitive type of the namespace `System`, and its optional type. -/
def withPrimitive (c : Catalog) (t : HostType) (name : String) : Catalog :=
  let c := (c.declare t [.name name, .space "System", .primitive, .displayable]).2
  (c.declareNullable t).2

/-- The primitive types. -/
def primitives : List (HostType × String) :=
  [(.bool, "Boolean"), (.char, "Char"), (.int .i8, "SByte"), (.int .u8, "Byte"),
   (.int .i16, "Int16"), (.int .u16, "UInt16"), (.int .i32, "Int32"), (.int .u32, "UInt32"),
   (.int .i64, "Int64"), (.int .u64, "UInt64"), (.int .isize, "IntPtr"), (.int .usize, "UIntPtr"),
   (.float32, "Single"), (.float64, "Double")]

/-- Declares a type, keeping only the catalogue. -/
def withType (c : Catalog) (t : HostType) (clauses : List Clause) : Catalog := (c.declare t clauses).2

/-- Declares an optional type, keeping only the catalogue. -/
def withNullable (c : Catalog) (t : HostType) : Catalog := (c.declareNullable t).2

/-- A catalogue of the types of the namespace `System`. -/
def new (spelling : HostSpelling) (parts : Parts := .ofObjects) : Catalog :=
  let c : Catalog := { spelling := spelling, parts := parts }
  let c := ((c.insert Descriptor.objectType).insert arrayMarker).insert nullableDefinition
  let c := (c.declareInterface .display [.name "IFormattable", .space "System"]).2
  let c := primitives.foldl (fun c p => c.withPrimitive p.1 p.2) c
  let c := c.insert { facts := { key := .host .text, name := "String", space := some "System" } }
  let c := c.insertLink (.host .text) (.host .text) .textIdentity
  let c := c.withType .string [.name "String", .space "System", .displayable]
  let c := c.withType .duration [.name "TimeSpan", .space "System", .valueType]
  let c := c.withNullable .duration
  let c := c.withType .time [.name "DateTime", .space "System", .valueType]
  let c := c.withNullable .time
  let c := c.withType .uuid [.name "Guid", .space "System", .valueType, .displayable]
  let c := c.withNullable .uuid
  let c := c.withType .typeInfo [.name "Type", .space "System", .abstractType]
  c.withType .method [.name "MethodBase", .space "System.Reflection", .abstractType, .displayable]

/-! ## §5. Casts. -/

/-- The conversions from a value's type to another. -/
inductive Route
  /-- No declared link leads to the type. -/
  | none
  /-- The links lead in a circle. -/
  | endless
  /-- The conversions, the first one first; they start from the value as
  borrowed text if `fromText`, and from the value itself otherwise. -/
  | along (fromText : Bool) (casters : List Caster)
  deriving DecidableEq, Repr

/-- The places to look for a link to a supertype: the type itself, then its
interfaces, then its base types. -/
def sources (source : Descriptor) : List Descriptor :=
  source :: source.supertypes.filter (·.isInterface)
    ++ source.supertypes.filter (fun d => !d.isInterface)

/-- The last link of a route from `source` to `target`, and where it starts. -/
def lastLink? (c : Catalog) (source : Descriptor) (target : TypeKey) : Option (TypeKey × Link) :=
  if source.key = target then (c.links.get? (target, target)).map fun l => (target, l)
  else
    ((sources source).filter (·.key ≠ target)).findSome? fun s =>
      (c.links.get? (s.key, target)).map fun l => (s.key, l)

/-- Follows last links backwards; `casters` come behind the present target. -/
def routeBack (c : Catalog) (source : Descriptor) :
    (fuel : Nat) → (target : TypeKey) → List Caster → Route
  | 0, _, _ => .endless
  | fuel + 1, target, casters =>
      match c.lastLink? source target with
      | none => .none
      | some (_, .identity) => .along false casters
      | some (_, .textIdentity) => .along true casters
      | some (s, .upcast k) => c.routeBack source fuel s (k :: casters)

/-- The route from `source` to `target`.  After more steps than `source` has
supertypes a place was met twice, so the search goes on for ever. -/
def route (c : Catalog) (source : Descriptor) (target : HostType) : Route :=
  c.routeBack source (source.chain.length + 2) (.host target) []

/-- The value that a route starts from. -/
def departure? (source : Descriptor) (fromText : Bool) (v : Value) : Option View :=
  if fromText then v.asText?.map fun s => .plain (.text s)
  else
    match v with
    | .text _ => none
    | v => if source.key = .host v.type then some (.plain v) else none

/-- The value seen as `target`, if declared links lead there. -/
def cast? (c : Catalog) (v : TypedValue) (target : HostType) : Option View :=
  match c.route v.type target with
  | .none | .endless => none
  | .along fromText casters =>
      (departure? v.type fromText v.value).map (c.parts.follow casters)

end Catalog
end ValueText
