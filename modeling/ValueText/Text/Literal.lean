/-
  ValueText.Text.Literal — text between double quotes.

  Descriptions for people show a text as a literal, in which each character can
  be told apart.  A character is written, by the first rule that applies,

    • with a backslash before it, if it is a double quote or a backslash;
    • by a letter or digit after a backslash, if it is a tab, a line end or NUL;
    • by its number, if it is not shown or if it joins the character before it;
    • as itself.
-/
import ValueText.Text.Numeral
import ValueText.Text.Nongraphic
import ValueText.Text.Combining

namespace ValueText.Literal

/-- Whether a character inside a literal would be seen, and seen by itself. -/
def standsAlone (c : Char) : Bool := !(Nongraphic.mem c.toNat || Combining.mem c.toNat)

/-- A character by its number, in hexadecimal without leading zeros. -/
def numbered (c : Char) : List Char :=
  ['\\', 'u', '\x7b'] ++ Numeral.hexNumeral c.toNat ++ ['\x7d']

/-- One character inside a literal. -/
def quoteChar (c : Char) : List Char :=
  match c with
  | '"' => ['\\', '"']
  | '\\' => ['\\', '\\']
  | '\n' => ['\\', 'n']
  | '\r' => ['\\', 'r']
  | '\t' => ['\\', 't']
  | '\x00' => ['\\', '0']
  | c => if standsAlone c then [c] else numbered c

/-- The literal of a text. -/
def quote (s : String) : String :=
  String.ofList ('"' :: s.toList.flatMap quoteChar ++ ['"'])

/-- The words for the truth values. -/
def ofBool (b : Bool) : String := if b then "true" else "false"

/-- The literal of a text that may be missing. -/
def ofOption : Option String → String
  | none => "None"
  | some s => "Some(" ++ quote s ++ ")"

end ValueText.Literal
