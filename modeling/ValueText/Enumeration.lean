/-
  ValueText.Enumeration — default texts of enumeration values.

  A value reads as the first member declared with it.  A set of flags without
  such a member is taken apart into members from the greatest value down and
  listed in ascending order; every other value reads as its numeral.
-/
import ValueText.StableSort
import ValueText.Text.Numeral

namespace ValueText.Enumeration

/-- A named constant; several members may share a value. -/
structure Member where
  name : String
  value : Int64
  deriving DecidableEq, Repr

/-- The declared constants of an enumeration. -/
structure Declared where
  members : List Member
  flags : Bool
  deriving DecidableEq, Repr

/-- The first member declared with the value. -/
def named? (members : List Member) (value : Int64) : Option Member :=
  members.find? (·.value = value)

/-! ## §1. Flags. -/

/-- Members in ascending order of value; those of one value stay in order. -/
def sortByValue (members : List Member) : List Member :=
  StableSort.sort (fun a b => a.value < b.value) members

/-- Keeps the first of neighbours that share a value. -/
def dropRepeats : List Member → List Member
  | [] => []
  | [m] => [m]
  | m :: m' :: rest =>
      if m'.value = m.value then dropRepeats (m :: rest) else m :: dropRepeats (m' :: rest)
termination_by ms => ms.length

/-- The members a set of flags is made of: not zero, ascending, one for each value. -/
def candidates (members : List Member) : List Member :=
  dropRepeats (sortByValue (members.filter (·.value ≠ 0)))

/-- Takes members out of `remaining`, in the order given.  Answers what is left
and the members taken, the last one first. -/
def takeApart : (ms : List Member) → (remaining : Int64) → (taken : List Member) →
    Int64 × List Member
  | [], remaining, taken => (remaining, taken)
  | m :: ms, remaining, taken =>
      if remaining &&& m.value = m.value then
        takeApart ms (remaining &&& ~~~m.value) (m :: taken)
      else takeApart ms remaining taken

/-! ## §2. The text. -/

/-- The numeral of a value. -/
def numeral (value : Int64) : String := Numeral.ofInt value.toInt

/-- The default text of a value. -/
def defaultText (members : List Member) (flags : Bool) (value : Int64) : String :=
  match named? members value with
  | some m => m.name
  | none =>
      if !flags || value = 0 then numeral value
      else
        let (rest, taken) := takeApart (candidates members).reverse value []
        if rest = 0 then ", ".intercalate (taken.map (·.name)) else numeral value

end ValueText.Enumeration
