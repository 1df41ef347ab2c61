/-
  ValueText.Text.Numeral — decimal numerals of fixed-width integers.

  A numeral is written into memory that is reserved beforehand, so its length
  has to be known before its digits are.  Each number of bits has a ladder of its
  own: the magnitude is compared with the powers of ten below the bound, in
  ascending order or by halves, and the ladder of 64 bits makes its powers as it
  goes, until they no longer fit into a word.  The digits themselves come from
  repeated division, last digit first.
-/
import ValueText.Text.Units

namespace ValueText

/-! ## §1. Widths. -/

/-- The integer types a builder writes. -/
inductive IntWidth
  | i8 | u8 | i16 | u16 | i32 | u32 | i64 | u64 | isize | usize
  deriving DecidableEq, Repr

namespace IntWidth

/-- The number of bits. -/
def bits : IntWidth → Nat
  | i8 | u8 => 8
  | i16 | u16 => 16
  | i32 | u32 => 32
  | i64 | u64 | isize | usize => 64

/-- Whether the width has negative values. -/
def signed : IntWidth → Bool
  | i8 | i16 | i32 | i64 | isize => true
  | u8 | u16 | u32 | u64 | usize => false

/-- The least value of the width. -/
def least (w : IntWidth) : Int := if w.signed then -(Nat.pow 2 (w.bits - 1) : Int) else 0

/-- The greatest value of the width. -/
def greatest (w : IntWidth) : Int :=
  if w.signed then (Nat.pow 2 (w.bits - 1) : Int) - 1 else (Nat.pow 2 w.bits : Int) - 1

/-- The values of the width. -/
def Holds (w : IntWidth) (n : Int) : Prop := w.least ≤ n ∧ n ≤ w.greatest

instance (w : IntWidth) (n : Int) : Decidable (w.Holds n) := by
  unfold Holds; infer_instance

/-! ## §2. Ladders. -/

/-- The number of decimal digits of a magnitude of 8 bits. -/
def digitCount8 (n : Nat) : Nat := if n < 10 then 1 else if n < 100 then 2 else 3

/-- The number of decimal digits of a magnitude of 16 bits. -/
def digitCount16 (n : Nat) : Nat :=
  if n < 10 then 1
  else if n < 100 then 2
  else if n < 1000 then 3
  else if n < 10000 then 4
  else 5

/-- The number of decimal digits of a magnitude of 32 bits. -/
def digitCount32 (n : Nat) : Nat :=
  if n < 100000 then
    if n < 100 then if n < 10 then 1 else 2
    else if n < 1000 then 3
    else if n < 10000 then 4
    else 5
  else if n < 10000000 then if n < 1000000 then 6 else 7
  else if n < 100000000 then 8
  else if n < 1000000000 then 9
  else 10

/-- The product of two words of 64 bits, if it is a word. -/
def wordProduct? (m n : Nat) : Option Nat := if m * n < Nat.pow 2 64 then some (m * n) else none

/-- Counts `left` digits more at most, one as long as `n` reaches the power of ten
`threshold`.  Behind the last power that is a word there are twenty digits. -/
def countOn : (left count threshold n : Nat) → Nat
  | 0, count, _, _ => count
  | left + 1, count, threshold, n =>
      if threshold ≤ n then
        match wordProduct? threshold 10 with
        | some next => countOn left (count + 1) next n
        | none => 20
      else count

/-- The number of decimal digits of a magnitude of 64 bits. -/
def digitCount64 (n : Nat) : Nat :=
  if n < Nat.pow 2 32 then digitCount32 n else countOn 10 10 10000000000 n

/-- The number of decimal digits of a magnitude, read off the ladder of the width. -/
def digitCount (w : IntWidth) (magnitude : Nat) : Nat :=
  match w.bits with
  | 8 => digitCount8 magnitude
  | 16 => digitCount16 magnitude
  | 32 => digitCount32 magnitude
  | _ => digitCount64 magnitude

end IntWidth

/-! ## §3. Numerals. -/

namespace Numeral

/-- The decimal digit `d` as a character. -/
def digitChar (d : Nat) : Char := Char.ofNat (0x30 + d)

/-- The decimal digit `d` as a code unit. -/
def digitUnit (d : Nat) : CodeUnit := UInt16.ofNat (0x30 + d)

/-- The decimal digits of `n`, most significant first. -/
def digits (n : Nat) : List Nat :=
  if n < 10 then [n] else digits (n / 10) ++ [n % 10]

/-- The numeral of a natural number. -/
def ofNat (n : Nat) : String := String.ofList ((digits n).map digitChar)

/-- The numeral of an integer: a minus sign if it is negative, then its magnitude. -/
def ofInt (n : Int) : String :=
  if n < 0 then "-" ++ ofNat n.natAbs else ofNat n.natAbs

/-- The code units of the numeral of an integer. -/
def units (n : Int) : List CodeUnit :=
  (if n < 0 then [0x2D] else []) ++ (digits n.natAbs).map digitUnit

/-- The hexadecimal digit `d`, in lower case. -/
def hexChar (d : Nat) : Char := if d < 10 then Char.ofNat (0x30 + d) else Char.ofNat (0x57 + d)

/-- The `width` last hexadecimal digits of `n`, most significant first. -/
def hexDigits : (width n : Nat) → List Char
  | 0, _ => []
  | width + 1, n => hexDigits width (n / 16) ++ [hexChar (n % 16)]

/-- The hexadecimal digits of `n` without leading zeros. -/
def hexNumeral (n : Nat) : List Char :=
  if n < 16 then [hexChar n] else hexNumeral (n / 16) ++ [hexChar (n % 16)]

/-- The `width` last hexadecimal digits of `n` as a text. -/
def hex (width n : Nat) : String := String.ofList (hexDigits width n)

end Numeral
end ValueText
