/-
  ValueText.Types.Descriptor — what is known about one type.

  A descriptor is a value: it holds the descriptors of the types it refers to as
  they were when it was made.  A type that is declared again gets a new
  descriptor, and the descriptors that refer to the old one keep it.

  Main definitions:

    • `fullName`          the name with namespace, outer types and arguments;
    • `supertypes`        base types nearest first, then interfaces, then the
                          object type;
    • `isAssignableFrom`  whether values of one type can stand for another.
-/
import ValueText.Enumeration
import ValueText.Text.Literal
import ValueText.Types.Host

namespace ValueText

/-! ## §1. Parts. -/

/-- The identity of a type: a host type, or a name where the host has none. -/
inductive TypeKey
  | host (t : HostType)
  | named (name : String)
  deriving DecidableEq, Repr

/-- The shape of a type. -/
inductive TypeKind
  | object | reference | struct | primitive | interface | enumeration | array | pointer | byRef
  | genericParameter | genericDefinition
  deriving DecidableEq, Repr

/-- The word for a shape. -/
def TypeKind.word : TypeKind → String
  | .object => "Object"
  | .reference => "Class"
  | .struct => "Struct"
  | .primitive => "Primitive"
  | .interface => "Interface"
  | .enumeration => "Enum"
  | .array => "Array"
  | .pointer => "Pointer"
  | .byRef => "ByRef"
  | .genericParameter => "GenericParameter"
  | .genericDefinition => "GenericDefinition"

/-- Where the value of a property comes from. -/
inductive PropertySource
  | member (name : String)
  | text
  | number
  deriving DecidableEq, Repr

/-- A property that values of the type `owner` have. -/
structure Property where
  name : String
  owner : HostType
  source : PropertySource
  deriving DecidableEq, Repr

/-- How to read values of an enumeration. -/
structure EnumShape where
  type : HostType
  declared : Enumeration.Declared
  deriving DecidableEq, Repr

/-- What a descriptor says without referring to other types. -/
structure TypeFacts where
  key : TypeKey
  name : String
  space : Option String := none
  kind : TypeKind := .reference
  isAbstract : Bool := false
  isAnonymous : Bool := false
  /-- The number of parameters of a generic definition. -/
  arity : Nat := 0
  /-- Whether values of exactly this type have a text of their own. -/
  hasDisplay : Bool := false
  enumeration : Option EnumShape := none
  properties : List Property := []
  deriving DecidableEq, Repr

/-- What is known about one type. -/
structure Descriptor where
  facts : TypeFacts
  /-- The type that this one is nested in. -/
  outer : Option Descriptor := none
  base : Option Descriptor := none
  interfaces : List Descriptor := []
  /-- The generic definition or array marker that this type is an instance of. -/
  definition : Option Descriptor := none
  arguments : List Descriptor := []
  /-- The type of the elements of an array, or of the target of a pointer. -/
  element : Option Descriptor := none
  /-- The type inside an optional type. -/
  nullable : Option Descriptor := none
  /-- The type of the members of a sequence. -/
  sequence : Option Descriptor := none

namespace Descriptor

/-- The identity. -/
def key (d : Descriptor) : TypeKey := d.facts.key

/-- The simple name. -/
def name (d : Descriptor) : String := d.facts.name

/-- The shape. -/
def kind (d : Descriptor) : TypeKind := d.facts.kind

/-- Whether two descriptors are of one type. -/
def same (a b : Descriptor) : Bool := a.key = b.key

/-- Whether the type is the object type. -/
def isObject (d : Descriptor) : Bool := d.kind = .object

/-- Whether the type is an interface. -/
def isInterface (d : Descriptor) : Bool := d.kind = .interface

/-- Whether the type is a generic definition or the array marker. -/
def isGenericDefinition (d : Descriptor) : Bool :=
  d.kind = .genericDefinition || (d.kind = .array && d.element.isNone)

/-- The namespace; nested types have the one of their outermost type. -/
def space? : Descriptor → Option String
  | ⟨_, some outer, _, _, _, _, _, _, _⟩ => outer.space?
  | ⟨facts, none, _, _, _, _, _, _, _⟩ => facts.space

/-- The generic arguments; the one of an array is its element type. -/
def genericArguments (d : Descriptor) : List Descriptor :=
  match d.kind, d.element with
  | .array, some e => [e]
  | _, _ => d.arguments

/-- The object type, which every value can be assigned to. -/
def objectType : Descriptor :=
  { facts := { key := .host .object, name := "Object", space := some "System", kind := .object } }

/-! ## §2. Full names. -/

/-- The namespace and the outer types, each with its separator, and the name. -/
def pathName : Descriptor → String
  | ⟨facts, some outer, _, _, _, _, _, _, _⟩ => outer.pathName ++ "+" ++ facts.name
  | ⟨facts, none, _, _, _, _, _, _, _⟩ =>
      match facts.space with
      | some s => s ++ "." ++ facts.name
      | none => facts.name

mutual

/-- The name with namespace, outer types and generic arguments. -/
def fullName (d : Descriptor) : String :=
  match d with
  | ⟨facts, outer, base, interfaces, definition, arguments, element, nullable, sequence⟩ =>
      let path := pathName
        ⟨facts, outer, base, interfaces, definition, arguments, element, nullable, sequence⟩
      let named := match arguments with
        | [] => path
        | a :: as => path ++ "[" ++ ",".intercalate (fullName a :: fullNames as) ++ "]"
      match facts.kind, element with
      | .array, some e => fullName e ++ "[]"
      | .array, none => named
      | .pointer, some e => fullName e ++ "*"
      | .pointer, none => "*"
      | .byRef, some e => fullName e ++ "&"
      | .byRef, none => "&"
      | .genericParameter, _ => facts.name
      | _, _ => named

/-- The full names of several types. -/
def fullNames (ds : List Descriptor) : List String :=
  match ds with
  | [] => []
  | d :: ds => fullName d :: fullNames ds

end

/-! ## §3. Supertypes. -/

/-- The base types, nearest first, up to the object type or to a type with the
key `self`. -/
def basesUpTo (self : TypeKey) : Descriptor → List Descriptor
  | ⟨_, _, none, _, _, _, _, _, _⟩ => []
  | ⟨_, _, some base, _, _, _, _, _, _⟩ =>
      if base.isObject || base.key = self then [] else base :: basesUpTo self base

/-- The base types, nearest first. -/
def bases (d : Descriptor) : List Descriptor := d.basesUpTo d.key

mutual

/-- Adds an interface and those that it extends, depth first, to the types
found so far.  One that is there already is not followed again. -/
def reach (found : List Descriptor) : Descriptor → List Descriptor
  | ⟨facts, outer, base, interfaces, definition, arguments, element, nullable, sequence⟩ =>
      if found.any (·.key = facts.key) then found
      else
        reachAll (found ++
          [⟨facts, outer, base, interfaces, definition, arguments, element, nullable, sequence⟩])
          interfaces

/-- Adds several interfaces. -/
def reachAll (found : List Descriptor) : List Descriptor → List Descriptor
  | [] => found
  | i :: is => reachAll (reach found i) is

end

/-- Base types and interfaces in the order in which they are found. -/
def ancestors (d : Descriptor) : List Descriptor :=
  d.bases.foldl (fun found b => reachAll found b.interfaces) (reachAll d.bases d.interfaces)

/-- Every type that values of the type can be assigned to, the type itself
apart: base types nearest first, then interfaces, then the object type. -/
def supertypes (d : Descriptor) : List Descriptor :=
  if d.isObject then d.ancestors
  else d.ancestors.filter (fun a => !a.isObject) ++ [objectType]

/-- The type and its supertypes. -/
def chain (d : Descriptor) : List Descriptor := d :: d.supertypes

/-- Whether values of the type `other` can be used where `d` is expected. -/
def isAssignableFrom (d other : Descriptor) : Bool :=
  d.key = other.key || other.supertypes.any (·.key = d.key)

/-! ## §4. Descriptions. -/

/-- The description of a type with a named key. -/
def describe? (d : Descriptor) : Option String :=
  match d.key with
  | .host _ => none
  | .named n =>
      some ("TypeDescriptor \x7b key: Named(" ++ Literal.quote n ++ "), name: " ++ d.fullName
        ++ ", kind: " ++ d.kind.word ++ ", .. \x7d")

/-- The description of a member. -/
def describeMember (m : Enumeration.Member) : String :=
  "EnumMember \x7b name: " ++ Literal.quote m.name ++ ", value: " ++ Enumeration.numeral m.value
    ++ " \x7d"

/-- The description of an enumeration shape. -/
def describeEnumeration (e : EnumShape) : String :=
  "EnumShape \x7b members: [" ++ ", ".intercalate (e.declared.members.map describeMember)
    ++ "], flags: " ++ Literal.ofBool e.declared.flags ++ ", .. \x7d"

/-- The description of an optional type's shape. -/
def describeNullable (inner : Descriptor) : String :=
  "NullableShape \x7b inner: " ++ Literal.quote inner.fullName ++ ", .. \x7d"

/-- The description of a sequence's shape. -/
def describeSequence (element : Descriptor) : String :=
  "SequenceShape \x7b element: " ++ Literal.quote element.fullName ++ ", .. \x7d"

/-- The description of a property. -/
def describeProperty (p : Property) : String := "Property(" ++ Literal.quote p.name ++ ")"

end Descriptor
end ValueText
