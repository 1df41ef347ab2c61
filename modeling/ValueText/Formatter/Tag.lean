/-
  ValueText.Formatter.Tag — formatters that say who they are.

  A tag writes a label and, in angle brackets, what it was given: a view of the
  value if it is written against a type, the name of the value's type otherwise.
  Registered for types, tags show which registration was selected, and what the
  value was seen as.
-/
import ValueText.Formatter.Basic
import ValueText.Types.Description

namespace ValueText

/-- A formatter that writes a label and what it was given. -/
structure Tag where
  label : String
  kind : FormatterKind := .normal
  /-- Whether it appends its four parts one by one. -/
  split : Bool := false
  deriving DecidableEq, Repr

namespace Tag

/-- What a tag appends for a description. -/
def texts (t : Tag) (description : Option String) : List String :=
  let parts := [t.label, "<", description.getD "null", ">"]
  if t.split then parts else [String.join parts]

/-- The tag as a formatter that is written against a type. -/
def typed (t : Tag) (short : String → String) : TypedFormatter :=
  .custom t.kind fun v => .texts (t.texts (v.map (·.describe short)))

/-- The tag as a formatter that takes any value with its type. -/
def general (t : Tag) : GeneralFormatter :=
  .custom t.kind fun v => .texts (t.texts (v.map (·.type.fullName)))

end Tag
end ValueText
