/-
  ValueText.Types.DisplayName — type names for people.

  A display name uses the short words for common types, dots between nested
  types, angle brackets around generic arguments and no arity suffix.  Names of
  types that are nested too deeply are not rendered at all: an exclamation mark
  and the full name stand in their place.
-/
import ValueText.Types.Descriptor

namespace ValueText

/-- How display names are written. -/
structure NameStyle where
  withNamespace : Bool := true
  deriving DecidableEq, Repr

namespace NameStyle

/-! ## §1. Words. -/

/-- The short words for types of the namespace `System`. -/
def aliases : List (String × String) :=
  [("Boolean", "bool"), ("Byte", "byte"), ("SByte", "sbyte"), ("Char", "char"),
   ("Int16", "short"), ("UInt16", "ushort"), ("Int32", "int"), ("UInt32", "uint"),
   ("Int64", "long"), ("UInt64", "ulong"), ("Single", "float"), ("Double", "double"),
   ("String", "string"), ("Object", "object")]

/-- The namespaces that are left out. -/
def trivialSpaces : List String :=
  ["System", "System.Collections", "System.Collections.Generic", "System.Threading.Tasks"]

/-- The short word for a type, if it has one. -/
def alias? (d : Descriptor) : Option String :=
  if d.outer.isSome || d.space? ≠ some "System" || !d.genericArguments.isEmpty then none
  else aliases.lookup d.name

/-- A name without its arity suffix. -/
def stripArity (name : String) : String :=
  String.ofList (name.toList.takeWhile (·.toNat ≠ 0x60))

/-- The namespace with its dot, where it is written. -/
def spaceText (style : NameStyle) (space : Option String) : String :=
  match space with
  | some s => if style.withNamespace && !trivialSpaces.contains s then s ++ "." else ""
  | none => ""

/-- The empty brackets of a generic definition. -/
def openBrackets (arity : Nat) : String :=
  "<" ++ String.ofList (List.replicate (arity - 1) ',') ++ ">"

/-! ## §2. Rendering with a budget.  `none` stands for a type nested too deeply. -/

/-- Outer types, namespace and name; `budget` bounds the nesting. -/
def path? (style : NameStyle) : (budget : Nat) → Descriptor → Option String
  | 0, _ => none
  | budget + 1, ⟨facts, some outer, _, _, _, _, _, _, _⟩ =>
      (path? style budget outer).map fun o => o ++ "." ++ stripArity facts.name
  | _ + 1, ⟨facts, none, _, _, _, _, _, _, _⟩ =>
      some (style.spaceText facts.space ++ stripArity facts.name)

mutual

/-- The display name; `budget` bounds the nesting. -/
def render? (style : NameStyle) (budget : Nat) (d : Descriptor) : Option String :=
  match d with
  | ⟨facts, outer, base, interfaces, definition, arguments, element, nullable, sequence⟩ =>
      let d : Descriptor :=
        ⟨facts, outer, base, interfaces, definition, arguments, element, nullable, sequence⟩
      match budget with
      | 0 => none
      | budget + 1 =>
          let closed : Option String := do
            let path ← path? style (budget + 1) d
            if d.isGenericDefinition then some (path ++ openBrackets facts.arity)
            else
              match arguments with
              | [] => some path
              | a :: as =>
                  let args ← renderAll? style budget as
                  let first ← render? style budget a
                  some (path ++ "<" ++ ", ".intercalate (first :: args) ++ ">")
          match facts.kind, element with
          | .array, some e => (render? style budget e).map (· ++ "[]")
          | .array, none => some "Array"
          | .pointer, some e => (render? style budget e).map (· ++ "*")
          | .pointer, none => some "*"
          | .byRef, some e => (render? style budget e).map (· ++ "&")
          | .byRef, none => some "&"
          | .genericParameter, _ => some facts.name
          | _, _ =>
              match alias? d with
              | some word => some word
              | none => closed

/-- The display names of several types. -/
def renderAll? (style : NameStyle) (budget : Nat) (ds : List Descriptor) : Option (List String) :=
  match ds with
  | [] => some []
  | d :: ds => do
      let first ← render? style budget d
      let rest ← renderAll? style budget ds
      some (first :: rest)

end

/-- The greatest nesting of a type that is rendered. -/
def maxDepth : Nat := 32

/-- The display name of a type. -/
def render (style : NameStyle) (d : Descriptor) : String :=
  match render? style (maxDepth + 1) d with
  | some name => name
  | none => "!" ++ d.fullName

end NameStyle
end ValueText
