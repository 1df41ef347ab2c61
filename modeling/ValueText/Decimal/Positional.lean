/-
  ValueText.Decimal.Positional — numbers without an exponent.

  A number is written with all its places, however many zeros that takes, and
  without a point when nothing follows it.  The text comes in pieces, because a
  builder takes it piece by piece.
-/
import ValueText.Decimal.Shortest

namespace ValueText.Decimal

/-- The greatest number of zeros in a piece. -/
def zeroPiece : Nat := 64

/-- Zeros, in pieces of at most `zeroPiece`. -/
def zeros (n : Nat) : List String :=
  if n = 0 then []
  else if n ≤ zeroPiece then [String.ofList (List.replicate n '0')]
  else String.ofList (List.replicate zeroPiece '0') :: zeros (n - zeroPiece)
termination_by n
decreasing_by simp only [zeroPiece] at *; omega

/-- The pieces of d · 10^k. -/
def Digits.pieces (x : Digits) : List String :=
  let ds := (Numeral.digits x.digits).map Numeral.digitChar
  let point : Int := ds.length + x.exponent
  if point ≤ 0 then "0." :: zeros point.natAbs ++ [String.ofList ds]
  else if point < ds.length then
    [String.ofList (ds.take point.toNat), ".", String.ofList (ds.drop point.toNat)]
  else String.ofList ds :: zeros (point - ds.length).toNat

/-- The sign as a piece. -/
def signPieces (negative : Bool) : List String := if negative then ["-"] else []

/-- The pieces of what a bit pattern stands for. -/
def Decoded.pieces : Decoded → List String
  | .nan => ["NaN"]
  | .infinite negative => signPieces negative ++ ["inf"]
  | .zero negative => signPieces negative ++ ["0"]
  | .finite negative x => signPieces negative ++ x.shortest.pieces

/-- The pieces of a number of the format. -/
def BinaryFormat.pieces (f : BinaryFormat) (bits : Nat) : List String := (f.decode bits).pieces

end ValueText.Decimal
