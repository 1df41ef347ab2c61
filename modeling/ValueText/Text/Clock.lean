/-
  ValueText.Text.Clock — texts of durations, points in time and identifiers.

  Durations use the greatest of four units in which they are at least one, and
  drop trailing zeros.  A point in time is a signed offset in seconds with nine
  places.  An identifier is thirty-two hexadecimal digits in five groups.  Texts
  come in pieces, because a builder takes them piece by piece.
-/
import ValueText.Text.Numeral

namespace ValueText

/-- A stretch of time. -/
structure Duration where
  seconds : Nat
  nanos : Nat
  deriving DecidableEq, Repr

/-- A point in time, as its distance from a fixed one. -/
structure Instant where
  offset : Duration
  before : Bool := false
  deriving DecidableEq, Repr

namespace Clock

/-- The decimal places of `part / 10^places`, without trailing zeros. -/
def placeDigits : (places part : Nat) → List Nat
  | 0, _ => []
  | places + 1, part =>
      if part = 0 then []
      else part / Nat.pow 10 places % 10 :: placeDigits places (part % Nat.pow 10 places)

/-- The pieces of `whole + part / 10^places` with a unit behind it. -/
def quantity (whole part places : Nat) (unit : String) : List String :=
  let ds := placeDigits places part
  Numeral.ofNat whole ::
    ((if ds.isEmpty then [] else [".", String.ofList (ds.map Numeral.digitChar)]) ++ [unit])

/-- The pieces of a duration. -/
def durationPieces (d : Duration) : List String :=
  if 0 < d.seconds then quantity d.seconds d.nanos 9 "s"
  else if 1000000 ≤ d.nanos then quantity (d.nanos / 1000000) (d.nanos % 1000000) 6 "ms"
  else if 1000 ≤ d.nanos then quantity (d.nanos / 1000) (d.nanos % 1000) 3 "µs"
  else quantity d.nanos 0 0 "ns"

/-- Whether a point in time lies before the fixed one. -/
def isBefore (t : Instant) : Bool := t.before && !(t.offset.seconds = 0 && t.offset.nanos = 0)

/-- The pieces of a point in time; each zero in front of the nanoseconds is one. -/
def instantPieces (t : Instant) : List String :=
  let nanos := Numeral.ofNat t.offset.nanos
  (if isBefore t then ["-"] else [])
    ++ [Numeral.ofNat t.offset.seconds, "."]
    ++ List.replicate (9 - nanos.length) "0" ++ [nanos]

/-- The text of an identifier. -/
def uuidText (n : Nat) : String :=
  let hex := Numeral.hexDigits 32 n
  let group (start length : Nat) := String.ofList ((hex.drop start).take length)
  "-".intercalate [group 0 8, group 8 4, group 12 4, group 16 4, group 20 12]

end Clock
end ValueText
