/-
  ValueText.Buffer.Region — memory of a fixed number of code units.

  A region is allocated by the library or borrowed from a caller.  It can be
  released once; a released region has no units, but memory that was borrowed
  stays with its lender.  Every access names the units it touches beforehand and
  is refused as a whole when one of them does not exist.

  Main statements: `size_write` (writing keeps the size) and `write_append`
  (writing is done unit by unit, in ascending order).
-/
import ValueText.Text.Numeral

namespace ValueText

/-- Who owns the memory of a region. -/
inductive Ownership
  | owned | borrowed | released
  deriving DecidableEq, Repr

/-- The name of an ownership in descriptions. -/
def Ownership.name : Ownership → String
  | .owned => "Owned"
  | .borrowed => "Borrowed"
  | .released => "Released"

/-- A fixed number of code units. -/
structure Region where
  /-- The memory; a lender still sees it after the release. -/
  cells : Array CodeUnit
  ownership : Ownership
  deriving DecidableEq, Repr

namespace Region

/-! ## §1. Making, releasing, measuring. -/

/-- A region of zeros. -/
def allocate (capacity : Nat) : Region := ⟨Array.replicate capacity 0, .owned⟩

/-- A region over memory that somebody else owns. -/
def adopt (units : List CodeUnit) : Region := ⟨units.toArray, .borrowed⟩

/-- Gives the memory back: owned memory is gone, borrowed memory is left alone. -/
def release (r : Region) : Region :=
  match r.ownership with
  | .owned => ⟨#[], .released⟩
  | .borrowed | .released => ⟨r.cells, .released⟩

/-- The number of units that can be accessed. -/
def capacity (r : Region) : Nat := if r.ownership = .released then 0 else r.cells.size

/-- The units that can be accessed. -/
def units (r : Region) : List CodeUnit :=
  if r.ownership = .released then [] else r.cells.toList

/-- Whether the region was released. -/
def isReleased (r : Region) : Bool := r.ownership = .released

/-- Whether the memory belongs to somebody else. -/
def isBorrowed (r : Region) : Bool := r.ownership = .borrowed

/-- The units at `lo`, `lo + 1`, …, `hi - 1`, without a check of the bounds. -/
def slice (r : Region) (lo hi : Nat) : List CodeUnit := (r.cells.extract lo hi).toList

/-! ## §2. Writing. -/

/-- Stores a unit; nothing happens outside the memory. -/
def put (r : Region) (i : Nat) (u : CodeUnit) : Region :=
  { r with cells := r.cells.setIfInBounds i u }

/-- Stores units one after another, the first one at `i`. -/
def write (r : Region) (i : Nat) : List CodeUnit → Region
  | [] => r
  | u :: us => (r.put i u).write (i + 1) us

@[simp] theorem size_put (r : Region) (i : Nat) (u : CodeUnit) :
    (r.put i u).cells.size = r.cells.size := by simp [put]

@[simp] theorem size_write (us : List CodeUnit) :
    ∀ (r : Region) (i : Nat), (r.write i us).cells.size = r.cells.size := by
  induction us with
  | nil => intro r i; rfl
  | cons u us ih => intro r i; simp [write, ih]

theorem ownership_write (us : List CodeUnit) :
    ∀ (r : Region) (i : Nat), (r.write i us).ownership = r.ownership := by
  induction us with
  | nil => intro r i; rfl
  | cons u us ih => intro r i; simp [write, ih, put]

theorem write_append (us vs : List CodeUnit) :
    ∀ (r : Region) (i : Nat), r.write i (us ++ vs) = (r.write i us).write (i + us.length) vs := by
  induction us with
  | nil => intro r i; rfl
  | cons u us ih =>
      intro r i
      simp only [List.cons_append, write, List.length_cons, ih]
      congr 1
      omega

/-! ## §3. Checked access.  `none` stands for an access outside the region. -/

/-- Whether `lo ≤ hi` and both lie in the region. -/
def covers (r : Region) (lo hi : Nat) : Bool := lo ≤ hi && hi ≤ r.capacity

/-- The unit at an index. -/
def load? (r : Region) (i : Nat) : Option CodeUnit := r.units[i]?

/-- Stores a unit at an index. -/
def store? (r : Region) (i : Nat) (u : CodeUnit) : Option Region :=
  if i < r.capacity then some (r.put i u) else none

/-- Stores several units. -/
def storeSlice? (r : Region) (i : Nat) (us : List CodeUnit) : Option Region :=
  if r.covers i (i + us.length) then some (r.write i us) else none

/-- Stores one unit everywhere in a range. -/
def fill? (r : Region) (lo hi : Nat) (u : CodeUnit) : Option Region :=
  if r.covers lo hi then some (r.write lo (List.replicate (hi - lo) u)) else none

/-- Puts the units of a range behind `out`. -/
def copyTo? (r : Region) (lo hi : Nat) (out : List CodeUnit) : Option (List CodeUnit) :=
  if r.covers lo hi then some (out ++ r.slice lo hi) else none

/-- Copies units of another region in ascending order. -/
def copyFrom? (r : Region) (i : Nat) (source : Region) (lo hi : Nat) : Option Region :=
  if r.covers i (i + (hi - lo)) && source.covers lo hi then some (r.write i (source.slice lo hi))
  else none

/-- Copies `n` units within a region in ascending order.  Each unit is read only
when its turn comes, so a copy to a later place repeats what it has written. -/
def copyWithin (r : Region) (i lo : Nat) : Nat → Region
  | 0 => r
  | n + 1 =>
      match r.cells[lo]? with
      | some u => (r.put i u).copyWithin (i + 1) (lo + 1) n
      | none => r.copyWithin (i + 1) (lo + 1) n

/-- Copies units of the region itself in ascending order. -/
def copyWithin? (r : Region) (i lo hi : Nat) : Option Region :=
  if r.covers i (i + (hi - lo)) && r.covers lo hi then some (r.copyWithin i lo (hi - lo)) else none

/-- The description of a region. -/
def describe (r : Region) : String :=
  "RawRegion \x7b capacity: " ++ Numeral.ofNat r.capacity ++ ", ownership: " ++ r.ownership.name
    ++ " \x7d"

end Region
end ValueText
