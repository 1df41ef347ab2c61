/-
  ValueText.Buffer.Builder — a text of bounded length under construction.

  A builder owns a region and fills it from the left.  An append either fits
  completely or changes nothing but the count of overflows; the builder's
  policy decides whether an overflow is an answer (`false`) or an error.

  Snapshots look at a builder through what it publishes: its region, its length
  and its version.  The version grows when the content is cleared.

  Main definitions:

    • `reserve`      decides whether an append fits;
    • `appendUnits`  the append that most others come down to;
    • `appendPieces` several appends that land together or not at all;
    • `units`        the content, the view in which the operations are explained.
-/
import ValueText.Buffer.Region
import ValueText.Text.Literal

namespace ValueText

/-! ## §1. Overflow. -/

/-- What happens when an append does not fit. -/
inductive OverflowPolicy
  | report | error
  deriving DecidableEq, Repr

/-- The name of a policy in descriptions. -/
def OverflowPolicy.name : OverflowPolicy → String
  | .report => "Report"
  | .error => "Error"

/-- An append that did not fit. -/
structure Overflow where
  requested : Nat
  available : Nat
  deriving DecidableEq, Repr

/-- The wording of an overflow. -/
def Overflow.message (e : Overflow) : String :=
  "insufficient capacity: " ++ Numeral.ofNat e.requested ++ " code units requested, "
    ++ Numeral.ofNat e.available ++ " available"

/-- How a builder is made. -/
structure BuilderOptions where
  capacity : Nat := 2048
  policy : OverflowPolicy := .error
  deriving DecidableEq, Repr

/-- The description of builder options. -/
def BuilderOptions.describe (o : BuilderOptions) : String :=
  "BuilderOptions \x7b capacity: " ++ Numeral.ofNat o.capacity ++ ", overflow: " ++ o.policy.name
    ++ " \x7d"

/-! ## §2. The builder. -/

/-- What the snapshots of a builder can see. -/
structure Published where
  region : Region
  length : Nat := 0
  version : UInt64 := 0
  deriving DecidableEq, Repr

/-- A bounded text under construction. -/
structure Builder where
  published : Published
  length : Nat := 0
  capacity : Nat
  version : UInt64 := 0
  policy : OverflowPolicy
  /-- An overflow of the sink, kept for the next write that fails. -/
  pending : Option Overflow := none
  overflows : UInt64 := 0
  disposed : Bool := false
  deriving DecidableEq, Repr

/-- The answer of an append, and the builder after it. -/
abbrev Appended := Except Overflow Bool × Builder

namespace Builder

/-- A builder over a region. -/
def ofRegion (r : Region) (policy : OverflowPolicy) : Builder :=
  { published := { region := r }, capacity := r.capacity, policy := policy }

/-- A builder with memory of its own. -/
def new (o : BuilderOptions) : Builder := ofRegion (.allocate o.capacity) o.policy

/-- A builder over memory that somebody else owns. -/
def borrowing (memory : List CodeUnit) (policy : OverflowPolicy) : Builder :=
  ofRegion (.adopt memory) policy

/-- The memory the builder writes to. -/
abbrev region (b : Builder) : Region := b.published.region

/-- The content. -/
def units (b : Builder) : List CodeUnit := b.region.slice 0 b.length

/-- The content as text. -/
def text (b : Builder) : String := CodeUnit.decode b.units

/-- The number of units that still fit. -/
def remaining (b : Builder) : Nat := b.capacity - b.length

/-- Whether the builder has no content. -/
def isEmpty (b : Builder) : Bool := b.length = 0

/-- The description of a builder. -/
def describe (b : Builder) : String :=
  "StringBuilder \x7b content: " ++ Literal.quote b.text
    ++ ", len: " ++ Numeral.ofNat b.length ++ ", capacity: " ++ Numeral.ofNat b.capacity
    ++ ", version: " ++ Numeral.ofNat b.version.toNat ++ ", overflow: " ++ b.policy.name ++ " \x7d"

/-! ## §3. Steps that the operations are made of. -/

/-- Counts an overflow; the policy makes the answer. -/
def overflow (b : Builder) (requested available : Nat) : Appended :=
  let b' := { b with overflows := b.overflows + 1 }
  match b.policy with
  | .report => (.ok false, b')
  | .error => (.error ⟨requested, available⟩, b')

/-- Sets and publishes the length. -/
def commit (b : Builder) (length : Nat) : Builder :=
  { b with length := length, published := { b.published with length := length } }

/-- Changes the memory. -/
def withRegion (b : Builder) (r : Region) : Builder :=
  { b with published := { b.published with region := r } }

/-- Runs `fill` on the memory if `count` units fit behind the content, and then
counts them as content. -/
def reserve (b : Builder) (count : Nat) (fill : Region → Region) : Appended :=
  if count ≤ b.capacity - b.length then
    (.ok true, (b.withRegion (fill b.region)).commit (b.length + count))
  else b.overflow count (b.capacity - b.length)

/-! ## §4. Appends. -/

/-- Appends units. -/
def appendUnits (b : Builder) (us : List CodeUnit) : Appended :=
  b.reserve us.length (·.write b.length us)

/-- Appends one unit. -/
def appendUnit (b : Builder) (u : CodeUnit) : Appended := b.appendUnits [u]

/-- Appends a character. -/
def appendChar (b : Builder) (c : Char) : Appended := b.appendUnits (CodeUnit.encodeChar c)

/-- Appends a text. -/
def appendText (b : Builder) (s : String) : Appended := b.appendUnits (CodeUnit.encode s)

/-- Appends a truth value. -/
def appendBool (b : Builder) (v : Bool) : Appended := b.appendText (Literal.ofBool v)

/-- Appends a unit `count` times.  Nothing is written when the run does not fit. -/
def appendRepeated (b : Builder) (u : CodeUnit) (count : Nat) : Appended :=
  b.reserve count fun r => r.write b.length (List.replicate count u)

/-- Appends the content of another builder. -/
def appendBuilder (b other : Builder) : Appended :=
  b.reserve other.length (·.write b.length (other.region.slice 0 other.length))

/-- Stores the `count` last digits of `n` in front of `stop`, the last one first. -/
def writeDigits (r : Region) (stop : Nat) : (count n : Nat) → Region
  | 0, _ => r
  | count + 1, n =>
      writeDigits (r.put (stop - 1) (Numeral.digitUnit (n % 10))) (stop - 1) count (n / 10)

/-- Appends the numeral of an integer of width `w`. -/
def appendInt (b : Builder) (w : IntWidth) (n : Int) : Appended :=
  let sign := if n < 0 then 1 else 0
  let digits := w.digitCount n.natAbs
  b.reserve (sign + digits) fun r =>
    let r := if n < 0 then r.put b.length 0x2D else r
    writeDigits r (b.length + sign + digits) digits n.natAbs

/-! ## §5. Other changes. -/

/-- Forgets the content and starts a new version; the memory is left as it is. -/
def clear (b : Builder) : Builder :=
  let version := b.version + 1
  { b with version := version, length := 0,
           published := { b.published with version := version, length := 0 } }

/-- Cuts the content to at most `n` units. -/
def truncate (b : Builder) (n : Nat) : Builder := if n < b.length then b.commit n else b

/-- Puts a zero behind the content, or over its last unit when there is no room. -/
def terminate (b : Builder) : Appended :=
  if b.length < b.capacity then (.ok true, b.withRegion (b.region.put b.length 0))
  else
    match b.overflow 1 0 with
    | (.error e, b) => (.error e, b)
    | (.ok _, b) =>
        if 0 < b.length then
          (.ok false, (b.withRegion (b.region.put (b.length - 1) 0)).commit (b.length - 1))
        else (.ok false, b)

/-- The unit at an index of the memory, or `none` outside it. -/
def get? (b : Builder) (i : Nat) : Option CodeUnit := b.region.load? i

/-- Changes the unit at an index of the memory; `none` outside it. -/
def set? (b : Builder) (i : Nat) (u : CodeUnit) : Option Builder :=
  (b.region.store? i u).map b.withRegion

/-- Gives up the builder.  Its memory is released unless somebody still
`shares` it. -/
def dispose (b : Builder) (shared : Bool) : Builder :=
  if b.disposed then b
  else
    let b := { b.clear with disposed := true, capacity := 0 }
    if shared then b else b.withRegion b.region.release

/-! ## §6. Writing in pieces. -/

/-- Writes one piece of a longer text: whether it was written.  An overflow
error stays pending. -/
def sink (b : Builder) (s : String) : Bool × Builder :=
  match b.appendText s with
  | (.ok ok, b) => (ok, b)
  | (.error e, b) => (false, { b with pending := some e })

/-- Writes pieces until one of them fails; `complete` is what follows the last. -/
def sinkAll (b : Builder) (pieces : List String) (complete : Bool) : Bool × Builder :=
  match pieces with
  | [] => (complete, b)
  | s :: rest =>
      match b.sink s with
      | (true, b) => b.sinkAll rest complete
      | (false, b) => (false, b)

/-- Writes a text that comes in pieces, all of them or none.  The text may turn
out to be unwritable after its last piece (`complete = false`).  What is reported
is the overflow that is pending. -/
def appendPieces (b : Builder) (pieces : List String) (complete : Bool) : Appended :=
  match b.sinkAll pieces complete with
  | (true, b') => (.ok true, b')
  | (false, b') =>
      let b' := b'.truncate b.length
      match b'.pending with
      | some e => (.error e, { b' with pending := none })
      | none => (.ok false, b')

end Builder
end ValueText
