/-
  ValueText.Text.Units — sixteen-bit code units.

  Every buffer of this library holds UTF-16 code units.  This file fixes the
  two directions between text and units:

    • `encode`   text → units, one unit below U+10000 and a surrogate pair above;
    • `decode`   units → text, total: an unpaired surrogate reads as U+FFFD.

  Main statements: `decode_encode` (encoded text reads back) and
  `encodeChar_length` (a character takes one or two units).
-/

namespace ValueText

/-- A UTF-16 code unit. -/
abbrev CodeUnit := UInt16

namespace CodeUnit

/-! ## §1. Surrogates. -/

/-- The first half of a surrogate pair. -/
def isHigh (u : CodeUnit) : Bool := 0xD800 ≤ u.toNat && u.toNat < 0xDC00

/-- The second half of a surrogate pair. -/
def isLow (u : CodeUnit) : Bool := 0xDC00 ≤ u.toNat && u.toNat < 0xE000

/-- The character that stands for an unpaired surrogate. -/
def replacement : Char := Char.ofNat 0xFFFD

/-- The character of a surrogate pair. -/
def pair (high low : CodeUnit) : Char :=
  Char.ofNat (0x10000 + (high.toNat - 0xD800) * 0x400 + (low.toNat - 0xDC00))

/-- The character of a unit that is not the first half of a pair. -/
def single (u : CodeUnit) : Char :=
  if isHigh u || isLow u then replacement else Char.ofNat u.toNat

/-! ## §2. Text to units. -/

/-- The units of one character. -/
def encodeChar (c : Char) : List CodeUnit :=
  if c.toNat < 0x10000 then [UInt16.ofNat c.toNat]
  else
    [UInt16.ofNat (0xD800 + (c.toNat - 0x10000) / 0x400),
     UInt16.ofNat (0xDC00 + (c.toNat - 0x10000) % 0x400)]

/-- The units of a list of characters. -/
def encodeChars (cs : List Char) : List CodeUnit := cs.flatMap encodeChar

/-- The units of a text. -/
def encode (s : String) : List CodeUnit := encodeChars s.toList

/-! ## §3. Units to text. -/

/-- The characters of a list of units; each unpaired surrogate is replaced. -/
def decodeChars : List CodeUnit → List Char
  | [] => []
  | [u] => [single u]
  | u :: v :: rest =>
      if isHigh u && isLow v then pair u v :: decodeChars rest
      else single u :: decodeChars (v :: rest)

/-- The text of a list of units. -/
def decode (us : List CodeUnit) : String := String.ofList (decodeChars us)

/-! ## §4. Lengths. -/

theorem encodeChar_length (c : Char) :
    (encodeChar c).length = if c.toNat < 0x10000 then 1 else 2 := by
  unfold encodeChar; split <;> rfl

theorem encodeChars_append (a b : List Char) :
    encodeChars (a ++ b) = encodeChars a ++ encodeChars b := by
  simp [encodeChars]

theorem encode_append (a b : String) : encode (a ++ b) = encode a ++ encode b := by
  simp [encode, encodeChars_append]

/-! ## §5. Reading back. -/

/-- A character's code point is below U+110000 and no surrogate. -/
theorem toNat_scalar (c : Char) : c.toNat < 0xD800 ∨ (0xDFFF < c.toNat ∧ c.toNat < 0x110000) :=
  c.valid

theorem toNat_ofNat_small {n : Nat} (h : n < 0x10000) : (UInt16.ofNat n).toNat = n := by
  rw [UInt16.toNat_ofNat']
  exact Nat.mod_eq_of_lt h

theorem isHigh_eq_false {c : Char} (h : c.toNat < 0x10000) :
    isHigh (UInt16.ofNat c.toNat) = false := by
  have := toNat_scalar c
  simp only [isHigh, toNat_ofNat_small h, Bool.and_eq_false_iff, decide_eq_false_iff_not]
  omega

theorem isLow_eq_false {c : Char} (h : c.toNat < 0x10000) :
    isLow (UInt16.ofNat c.toNat) = false := by
  have := toNat_scalar c
  simp only [isLow, toNat_ofNat_small h, Bool.and_eq_false_iff, decide_eq_false_iff_not]
  omega

theorem single_ofNat {c : Char} (h : c.toNat < 0x10000) : single (UInt16.ofNat c.toNat) = c := by
  simp [single, isHigh_eq_false h, isLow_eq_false h, toNat_ofNat_small h]

theorem decodeChars_cons {u : CodeUnit} (h : isHigh u = false) (rest : List CodeUnit) :
    decodeChars (u :: rest) = single u :: decodeChars rest := by
  cases rest <;> simp [decodeChars, h]

theorem decodeChars_encodeChar (c : Char) (rest : List CodeUnit) :
    decodeChars (encodeChar c ++ rest) = c :: decodeChars rest := by
  have hc := toNat_scalar c
  unfold encodeChar
  split
  · next h => simp [decodeChars_cons (isHigh_eq_false h), single_ofNat h]
  · next h =>
      have hi : (UInt16.ofNat (0xD800 + (c.toNat - 0x10000) / 0x400)).toNat
          = 0xD800 + (c.toNat - 0x10000) / 0x400 := toNat_ofNat_small (by omega)
      have lo : (UInt16.ofNat (0xDC00 + (c.toNat - 0x10000) % 0x400)).toNat
          = 0xDC00 + (c.toNat - 0x10000) % 0x400 := toNat_ofNat_small (by omega)
      have hHigh : isHigh (UInt16.ofNat (0xD800 + (c.toNat - 0x10000) / 0x400)) = true := by
        simp only [isHigh, hi, Bool.and_eq_true, decide_eq_true_eq]
        omega
      have hLow : isLow (UInt16.ofNat (0xDC00 + (c.toNat - 0x10000) % 0x400)) = true := by
        simp only [isLow, lo, Bool.and_eq_true, decide_eq_true_eq]
        omega
      have hPair : pair (UInt16.ofNat (0xD800 + (c.toNat - 0x10000) / 0x400))
          (UInt16.ofNat (0xDC00 + (c.toNat - 0x10000) % 0x400)) = c := by
        have : 0x10000 + ((0xD800 + (c.toNat - 0x10000) / 0x400) - 0xD800) * 0x400
            + ((0xDC00 + (c.toNat - 0x10000) % 0x400) - 0xDC00) = c.toNat := by omega
        rw [pair, hi, lo, this, Char.ofNat_toNat]
      simp only [List.cons_append, List.nil_append, decodeChars, hHigh, hLow, hPair, Bool.and_self,
        ↓reduceIte]

/-- Encoded text reads back. -/
theorem decodeChars_encodeChars (cs : List Char) (rest : List CodeUnit) :
    decodeChars (encodeChars cs ++ rest) = cs ++ decodeChars rest := by
  induction cs with
  | nil => rfl
  | cons c cs ih =>
      rw [encodeChars, List.flatMap_cons, List.append_assoc, decodeChars_encodeChar]
      exact congrArg (c :: ·) ih

theorem decode_encode (s : String) : decode (encode s) = s := by
  have h := decodeChars_encodeChars s.toList []
  simp only [List.append_nil, decodeChars] at h
  rw [decode, encode, h, String.ofList_toList]

end CodeUnit
end ValueText
