/-
  ValueText.Buffer.Snapshot — cheap views of a builder's content.

  A snapshot is bound to a builder or holds content of its own.  A bound one
  remembers the builder's version and length and refuses to be read once either
  has changed.  Reading keeps the array and the text that it made, and later reads
  use them again.  Freezing cuts the tie to the builder.

  The builder's side is given to each operation as `see`, which shows what a
  builder publishes at the moment.
-/
import ValueText.Buffer.Builder
import ValueText.Buffer.Segment

namespace ValueText

/-- Names a builder for as long as somebody refers to what it publishes. -/
structure BuilderId where
  index : Nat
  deriving DecidableEq, Repr

/-- Where a snapshot has its content from. -/
inductive Origin
  | bound (builder : BuilderId) (version : UInt64) (length : Nat)
  | units (segment : Segment)
  | text (s : String)
  deriving DecidableEq

/-- A view of content, with the array and the text that reads have made of it. -/
structure Snapshot where
  origin : Origin
  array : Option Segment := none
  text : Option String := none
  deriving DecidableEq

namespace Snapshot

/-- The wording of a refused read. -/
def staleMessage : String := "the string builder changed after this snapshot was taken"

/-! ## §1. Making snapshots. -/

/-- A snapshot of a builder as it is now. -/
def bind (id : BuilderId) (b : Builder) : Snapshot := ⟨.bound id b.version b.length, none, none⟩

/-- A snapshot with units of its own. -/
def ofSegment (s : Segment) : Snapshot := ⟨.units s, none, none⟩

/-- A snapshot of an array of units. -/
def ofUnits (us : List CodeUnit) : Snapshot := ofSegment (.whole us)

/-- A snapshot of a text. -/
def ofText (s : String) : Snapshot := ⟨.text s, none, none⟩

/-! ## §2. What never fails. -/

/-- The builder a snapshot is bound to. -/
def boundTo? (s : Snapshot) : Option BuilderId :=
  match s.origin with
  | .bound id _ _ => some id
  | .units _ | .text _ => none

/-- Whether the content can no longer change. -/
def isFrozen (s : Snapshot) : Bool := s.boundTo?.isNone

/-- The number of units; for a bound snapshot the remembered one. -/
def length (s : Snapshot) : Nat :=
  match s.origin with
  | .bound _ _ n => n
  | .units seg => seg.length
  | .text t => (CodeUnit.encode t).length

/-- The description of a snapshot. -/
def describe (s : Snapshot) : String :=
  match s.origin with
  | .bound _ v n =>
      "Snapshot \x7b bound: true, version: " ++ Numeral.ofNat v.toNat ++ ", len: "
        ++ Numeral.ofNat n ++ " \x7d"
  | .units seg => "Snapshot \x7b bound: false, chars: " ++ seg.describe ++ " \x7d"
  | .text t => "Snapshot \x7b bound: false, text: " ++ Literal.quote t ++ " \x7d"

/-! ## §3. Reading.  `none` stands for a stale snapshot. -/

variable (see : BuilderId → Published)

/-- Whether the snapshot may be read. -/
def isCurrent (s : Snapshot) : Bool :=
  match s.origin with
  | .bound id v n => (see id).version = v && (see id).length = n
  | .units _ | .text _ => true

/-- The content as the origin has it at the moment. -/
def content (s : Snapshot) : List CodeUnit :=
  match s.origin with
  | .bound id _ n => (see id).region.slice 0 n
  | .units seg => seg.units
  | .text t => CodeUnit.encode t

/-- The segment of the content, made at the first read. -/
def readSegment? (s : Snapshot) : Option (Segment × Snapshot) :=
  if s.isCurrent see then
    match s.array with
    | some seg => some (seg, s)
    | none =>
        let seg := match s.origin with
          | .units seg => seg
          | .text _ | .bound .. => .whole (s.content see)
        some (seg, { s with array := some seg })
  else none

/-- The content as an array that holds nothing else. -/
def readArray? (s : Snapshot) : Option (List CodeUnit × Snapshot) :=
  match s.readSegment? see with
  | none => none
  | some (seg, s) =>
      if seg.coversArray then some (seg.array, s)
      else some (seg.units, { s with array := some (.whole seg.units) })

/-- The content as text. -/
def readText? (s : Snapshot) : Option (String × Snapshot) :=
  if s.isCurrent see then
    match s.text with
    | some t => some (t, s)
    | none =>
        let t := match s.array, s.origin with
          | some seg, _ => CodeUnit.decode seg.units
          | none, .text t => t
          | none, .units seg => CodeUnit.decode seg.units
          | none, .bound .. => CodeUnit.decode (s.content see)
        some (t, { s with text := some t })
  else none

/-- Cuts the tie to the builder, keeping what was read before. -/
def freeze? (s : Snapshot) : Option Snapshot :=
  if s.isFrozen then some s
  else if s.isCurrent see then
    match s.array, s.text with
    | some seg, _ => some { s with origin := .units seg }
    | none, some t => some { s with origin := .text t }
    | none, none =>
        let seg := Segment.whole (s.content see)
        some { s with origin := .units seg, array := some seg }
  else none

/-- Moves a bound snapshot to the builder's present content; `none` for any
other one.  What was read is forgotten if version or length differ. -/
def recycle? (s : Snapshot) : Option Snapshot :=
  match s.origin with
  | .bound id v n =>
      let p := see id
      if p.version = v && p.length = n then some s
      else some ⟨.bound id p.version p.length, none, none⟩
  | .units _ | .text _ => none

end Snapshot
end ValueText
