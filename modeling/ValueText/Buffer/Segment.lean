/-
  ValueText.Buffer.Segment — a stretch of an array of code units.

  Snapshots hand out arrays and stretches of arrays.  A segment cannot reach
  beyond its array: the bound is part of the type, and `of?` checks it.
-/
import ValueText.Text.Literal

namespace ValueText

/-- A stretch of an array of code units. -/
structure Segment where
  array : List CodeUnit
  start : Nat
  length : Nat
  inside : start + length ≤ array.length
  deriving DecidableEq

namespace Segment

/-- The segment of a whole array. -/
def whole (array : List CodeUnit) : Segment := ⟨array, 0, array.length, by omega⟩

/-- The segment with the given bounds, if they lie in the array. -/
def of? (array : List CodeUnit) (start length : Nat) : Option Segment :=
  if h : start + length ≤ array.length then some ⟨array, start, length, h⟩ else none

/-- The units of the segment. -/
def units (s : Segment) : List CodeUnit := (s.array.drop s.start).take s.length

/-- Whether the segment is its whole array. -/
def coversArray (s : Segment) : Bool := s.start = 0 && s.length = s.array.length

/-- The description of a segment. -/
def describe (s : Segment) : String :=
  "CharSegment \x7b text: " ++ Literal.quote (CodeUnit.decode s.units)
    ++ ", start: " ++ Numeral.ofNat s.start ++ ", len: " ++ Numeral.ofNat s.length ++ " \x7d"

@[simp] theorem units_whole (array : List CodeUnit) : (whole array).units = array := by
  simp [units, whole]

theorem units_length (s : Segment) : s.units.length = s.length := by
  have := s.inside
  simp only [units, List.length_take, List.length_drop]
  omega

theorem units_of_coversArray {s : Segment} (h : s.coversArray = true) : s.units = s.array := by
  simp only [coversArray, Bool.and_eq_true, decide_eq_true_eq] at h
  simp [units, h.1, h.2]

end Segment
end ValueText
