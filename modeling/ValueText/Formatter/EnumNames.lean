/-
  ValueText.Formatter.EnumNames — names of enumeration values.

  A formatter has a table of the names that its enumeration declares; a value that is
  declared more than once has its first name.  The texts of all other values are made
  once and kept, for all formatters together.
-/
import ValueText.Table
import ValueText.Types.Descriptor

namespace ValueText

/-! ## §1. The names of one enumeration. -/

/-- What the formatter of an enumeration looks up. -/
structure EnumFormatter where
  type : HostType
  /-- The first name that is declared with a value. -/
  names : Table Int64 String
  /-- The texts of the values without a name. -/
  text : Int64 → String

namespace EnumFormatter

/-- The table of the declared names. -/
def new (e : EnumShape) (text : Int64 → String) : EnumFormatter where
  type := e.type
  names := e.declared.members.foldl (fun names m => names.insertNew m.value m.name) .empty
  text := text

/-- The formatter of an enumeration with the default texts. -/
def standard (e : EnumShape) : EnumFormatter :=
  new e (Enumeration.defaultText e.declared.members e.declared.flags)

end EnumFormatter

/-! ## §2. The texts of all other values. -/

/-- The texts that were made for values without a name. -/
structure EnumNames where
  kept : Table (HostType × Int64) String := .empty
  /-- The types and values for which a text was made, in order. -/
  made : List (HostType × Int64) := []

namespace EnumNames

/-- The text that a formatter writes for a value. -/
def nameBy (ns : EnumNames) (f : EnumFormatter) (n : Int64) : String × EnumNames :=
  match f.names.get? n with
  | some s => (s, ns)
  | none =>
      match ns.kept.get? (f.type, n) with
      | some s => (s, ns)
      | none =>
          let s := f.text n
          (s, ⟨ns.kept.set (f.type, n) s, ns.made ++ [(f.type, n)]⟩)

/-- The text of a value. -/
def nameOf (ns : EnumNames) (e : EnumShape) (n : Int64) : String × EnumNames :=
  ns.nameBy (.standard e) n

/-- The texts of several values. -/
def namesOf (ns : EnumNames) (e : EnumShape) : List Int64 → List String × EnumNames
  | [] => ([], ns)
  | n :: rest =>
      let (s, ns) := ns.nameOf e n
      let (rest, ns) := ns.namesOf e rest
      (s :: rest, ns)

end EnumNames
end ValueText
