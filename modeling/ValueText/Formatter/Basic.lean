/-
  ValueText.Formatter.Basic — formatters and their handles.

  A formatter is written against one host type and sees values as that type, or
  it takes any value together with a type.  A handle keeps either sort with the
  type it is registered for.

      direct     written against one type        `TypedFormatter`
      general    takes a value with its type     `GeneralFormatter`

  Formatters of the host are known by their kind and by how they write a value.
-/
import ValueText.Formatter.Writing
import ValueText.Registry.Factory
import ValueText.Types.Catalog

namespace ValueText

/-! ## §1. Formatters. -/

/-- What a formatter does when another one is looked for. -/
inductive FormatterKind
  /-- It has a rendering of its own. -/
  | normal
  /-- It is used when nothing more specific exists. -/
  | default
  /-- It leaves the work to the formatter of each value's own type. -/
  | dynamic
  deriving DecidableEq, Repr

/-- The word for a kind. -/
def FormatterKind.word : FormatterKind → String
  | .normal => "Normal"
  | .default => "Default"
  | .dynamic => "Dynamic"

/-- A formatter that is written against one host type. -/
inductive TypedFormatter
  | bool
  | int
  | float
  | char (quoted : Bool)
  | text (quoted : Bool)
  | duration
  | time
  | uuid
  /-- The text that a value makes of itself. -/
  | display
  | typeName (style : NameStyle)
  | method
  /-- A formatter of the host: its kind, and how it writes. -/
  | custom (kind : FormatterKind) (writing : Option View → HostWriting)

/-- A formatter that takes any value with a type. -/
inductive GeneralFormatter
  /-- Used when nothing more specific exists. -/
  | fallback
  /-- Leaves the work to the formatter of the value's type. -/
  | dynamic
  /-- Leaves the work to the formatter of the type inside. -/
  | nullable (inner : Descriptor)
  /-- Writes the properties of a record without a name. -/
  | anonymous
  | enumeration (shape : EnumShape)
  /-- A formatter of the host: its kind, and how it writes. -/
  | custom (kind : FormatterKind) (writing : Option TypedValue → HostWriting)

/-- A formatter of either sort. -/
inductive Formatter
  | direct (t : HostType) (f : TypedFormatter)
  | general (f : GeneralFormatter)

namespace Formatter

/-- The kind of a formatter. -/
def kind : Formatter → FormatterKind
  | direct _ (.custom k _) => k
  | direct _ _ => .normal
  | general .fallback => .default
  | general .dynamic => .dynamic
  | general (.custom k _) => k
  | general _ => .normal

/-- How far a formatter may be from the one that writes a value in the end: a
formatter only hands the same value on to one of lower rank. -/
def rank : Formatter → Nat
  | direct .. => 0
  | general .dynamic => 3
  | general .fallback => 2
  | general .anonymous => 1
  | general (.nullable _) => 0
  | general (.enumeration _) => 0
  | general (.custom ..) => 0

end Formatter

/-! ## §2. Handles. -/

/-- Where a formatter comes from.  Two handles share their formatter exactly if
they have the same provenance. -/
inductive Provenance
  | registered (number : Nat)
  | constructed (number : Nat) (closed : TypeKey)
  | fallback (key : TypeKey)
  deriving DecidableEq, Repr

/-- A formatter as it is registered. -/
structure Handle where
  provenance : Provenance
  /-- The type that the formatter is written for. -/
  valueType : Descriptor
  formatter : Formatter

namespace Handle

/-- The kind of the formatter. -/
def kind (h : Handle) : FormatterKind := h.formatter.kind

/-- Whether the formatter is written against a host type. -/
def isTyped (h : Handle) : Bool :=
  match h.formatter with
  | .direct .. => true
  | .general _ => false

/-- The description of a handle. -/
def describe (h : Handle) : String :=
  "FormatterHandle \x7b value_type: " ++ Literal.quote h.valueType.fullName
    ++ ", kind: " ++ h.kind.word ++ ", typed: " ++ Literal.ofBool h.isTyped ++ " \x7d"

instance : Extension Handle := ⟨fun h => some h.valueType⟩

end Handle

/-- A formatter for values that are known to be of one host type. -/
inductive StaticFormatter
  /-- The formatter is written against just this type. -/
  | exact (f : TypedFormatter)
  /-- The values are paired with their own type first. -/
  | converting (f : Formatter)

namespace StaticFormatter

/-- The kind of the formatter. -/
def kind : StaticFormatter → FormatterKind
  | exact f => (Formatter.direct .bool f).kind
  | converting f => f.kind

end StaticFormatter

/-- The formatter of a handle for values that are known to be of type `t`. -/
def Handle.forType (h : Handle) (t : HostType) : StaticFormatter :=
  match h.formatter with
  | .direct t' f => if t' = t then .exact f else .converting h.formatter
  | .general _ => .converting h.formatter

/-! ## §3. Writing with a typed formatter. -/

/-- A quotation mark as a unit. -/
def doubleQuote : CodeUnit := 0x22

/-- An apostrophe as a unit. -/
def singleQuote : CodeUnit := 0x27

namespace TypedFormatter

/-- Writes null. -/
def writeNull : TypedFormatter → Writing Unit
  | char false => pure ()
  | text false => pure ()
  | custom _ writing => (writing none).run
  | _ => Writing.null

/-- Writes a text, or what stands in its place. -/
def writeRendering (r : Rendering) : Writing Unit :=
  match r.result with
  | .ok s => Writing.text s
  | .error failure => Writing.braced failure

/-- Writes a text, in quotation marks if asked to. -/
def writeText (quoted : Bool) (s : String) : Writing Unit :=
  if quoted then
    Writing.atomic do
      Writing.units [doubleQuote]
      Writing.text s
      Writing.units [doubleQuote]
  else Writing.text s

/-- Writes a character, between apostrophes if asked to; NUL is left out
otherwise. -/
def writeChar (quoted : Bool) (c : Char) : Writing Unit :=
  if quoted then Writing.units ([singleQuote] ++ CodeUnit.encodeChar c ++ [singleQuote])
  else if c.toNat = 0 then pure ()
  else Writing.append (·.appendChar c)

/-- Writes a value seen as the type that the formatter is written against. -/
def writeView (f : TypedFormatter) (v : View) : Writing Unit :=
  match f, v.value with
  | custom _ writing, _ => (writing (some v)).run
  | bool, .bool b => Writing.append (·.appendBool b)
  | int, .int w n => Writing.append (·.appendInt w n)
  | float, .float32 bits => Writing.pieces (Decimal.single.pieces bits.toNat)
  | float, .float64 bits => Writing.pieces (Decimal.double.pieces bits.toNat)
  | char quoted, .char c => writeChar quoted c
  | text quoted, .text s => writeText quoted s
  | text quoted, .string s => writeText quoted s
  | duration, .duration d => Writing.pieces (Clock.durationPieces d)
  | time, .time t => Writing.pieces (Clock.instantPieces t)
  | uuid, .uuid n => Writing.pieces [Clock.uuidText n]
  | typeName style, .typeInfo d => Writing.text (style.render d)
  | method, .method m => Writing.text m.signature
  | display, v =>
      match v.rendering? with
      | some r => writeRendering r
      | none => pure ()
  | _, _ => pure ()

/-- Writes a value, or null. -/
def write (f : TypedFormatter) : Option View → Writing Unit
  | none => f.writeNull
  | some v => f.writeView v

end TypedFormatter
end ValueText
