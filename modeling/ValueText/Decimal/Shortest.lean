/-
  ValueText.Decimal.Shortest — the fewest decimal digits that read back.

  A finite binary number is m · 2^e.  All reals nearer to it than to its
  neighbours round to it; they form an interval, whose ends belong to it if and
  only if m is even.  Among the decimal grids, the multiples of a power of ten,
  the coarsest one with a point in that interval is found, and on it the point
  nearest to the number; of two equally near points it is the upper one.

  All arithmetic is exact.  If a grid has a point in the interval, so is one of
  the number's two neighbours on that grid, so only these two are tried.
-/
import ValueText.Text.Numeral

namespace ValueText.Decimal

/-! ## §1. Formats. -/

/-- A binary interchange format. -/
structure BinaryFormat where
  /-- The number of bits of the fraction field. -/
  fraction : Nat
  /-- The number of bits of the exponent field. -/
  exponent : Nat
  deriving DecidableEq, Repr

/-- The format of thirty-two bits. -/
def single : BinaryFormat := ⟨23, 8⟩

/-- The format of sixty-four bits. -/
def double : BinaryFormat := ⟨52, 11⟩

/-- A positive number m · 2^e and the gap below it. -/
structure Magnitude where
  mantissa : Nat
  exponent : Int
  /-- Whether the neighbour below is only half as far as the one above. -/
  closeBelow : Bool
  deriving DecidableEq, Repr

/-- What a bit pattern stands for. -/
inductive Decoded
  | nan
  | infinite (negative : Bool)
  | zero (negative : Bool)
  | finite (negative : Bool) (magnitude : Magnitude)
  deriving DecidableEq, Repr

/-- Takes a bit pattern apart. -/
def BinaryFormat.decode (f : BinaryFormat) (bits : Nat) : Decoded :=
  let field := bits % Nat.pow 2 f.fraction
  let biased := bits / Nat.pow 2 f.fraction % Nat.pow 2 f.exponent
  let negative := bits / Nat.pow 2 (f.fraction + f.exponent) % 2 = 1
  let lowest : Int := 2 - Nat.pow 2 (f.exponent - 1) - f.fraction
  if biased = Nat.pow 2 f.exponent - 1 then if field = 0 then .infinite negative else .nan
  else if biased = 0 then
    if field = 0 then .zero negative else .finite negative ⟨field, lowest, false⟩
  else
    .finite negative
      ⟨Nat.pow 2 f.fraction + field, lowest + (biased - 1), field = 0 && 1 < biased⟩

/-! ## §2. The interval.  Everything is measured in quarters of the unit 2^e. -/

/-- A magnitude and the ends of its interval over a common denominator. -/
structure Interval where
  low : Nat
  mid : Nat
  high : Nat
  /-- The common denominator. -/
  unit : Nat
  closed : Bool
  deriving DecidableEq, Repr

/-- The interval of the reals that round to a magnitude. -/
def Magnitude.interval (x : Magnitude) : Interval :=
  let scale := Nat.pow 2 (x.exponent - 2).toNat
  { low := (4 * x.mantissa - if x.closeBelow then 1 else 2) * scale
    mid := 4 * x.mantissa * scale
    high := (4 * x.mantissa + 2) * scale
    unit := Nat.pow 2 (2 - x.exponent).toNat
    closed := x.mantissa % 2 = 0 }

/-- The power 10^k as a fraction. -/
def tenPower (k : Int) : Nat × Nat := (Nat.pow 10 k.toNat, Nat.pow 10 (-k).toNat)

/-- Whether d · 10^k lies in the interval. -/
def Interval.contains (i : Interval) (d : Nat) (k : Int) : Bool :=
  let (up, down) := tenPower k
  let point := d * up * i.unit
  if i.closed then i.low * down ≤ point && point ≤ i.high * down
  else i.low * down < point && point < i.high * down

/-- The greatest d with d · 10^k ≤ mid. -/
def Interval.floor (i : Interval) (k : Int) : Nat :=
  let (up, down) := tenPower k
  i.mid * down / (up * i.unit)

/-- Whether the point above d is at least as near to mid as d is. -/
def Interval.upperIsNearer (i : Interval) (d : Nat) (k : Int) : Bool :=
  let (up, down) := tenPower k
  (2 * d + 1) * up * i.unit ≤ 2 * i.mid * down

/-! ## §3. The search. -/

/-- The neighbour of mid on the grid of 10^k that stands for it, if there is one. -/
def Interval.onGrid? (i : Interval) (k : Int) : Option Nat :=
  let d := i.floor k
  match i.contains d k, i.contains (d + 1) k with
  | true, true => some (if i.upperIsNearer d k then d + 1 else d)
  | true, false => some d
  | false, true => some (d + 1)
  | false, false => none

/-- Tries the grids from 10^k downwards. -/
def Interval.search (i : Interval) : (fuel : Nat) → (k : Int) → Nat × Int
  | 0, k => (i.floor k, k)
  | fuel + 1, k =>
      match i.onGrid? k with
      | some d => (d, k)
      | none => i.search fuel (k - 1)

/-- The least p with mid < 10^p, counting up from `p`. -/
def Interval.ceiling (i : Interval) : (fuel : Nat) → (p : Int) → Int
  | 0, p => p
  | fuel + 1, p =>
      if i.floor p = 0 then p else i.ceiling fuel (p + 1)

/-- A lower bound for the number of digits in front of the point.  Two binary
places make less than a decimal one, and four make more. -/
def Magnitude.startingPlace (x : Magnitude) : Int :=
  let top := x.exponent + Nat.log2 x.mantissa
  if 0 ≤ top then top / 4 else top / 3 - 1

/-- The digits of a number: d · 10^k. -/
structure Digits where
  digits : Nat
  exponent : Int
  deriving DecidableEq, Repr

/-- The fewest digits that read back as the magnitude. -/
def Magnitude.shortest (x : Magnitude) : Digits :=
  let i := x.interval
  let start := x.startingPlace
  let top := i.ceiling (x.exponent.natAbs + Nat.log2 x.mantissa + 4) start
  let (d, k) := i.search (x.exponent.natAbs + Nat.log2 x.mantissa + 4) top
  ⟨d, k⟩

end ValueText.Decimal
