/-
  ValueText.Proofs.Text.Surrogates — units that went through text.

  Text has no surrogates, so a surrogate that stands alone does not survive the way
  from units to text and back: U+FFFD comes back in its place.  Everything else
  does, and nothing moves.

  Main results:

    • `encode_decode`    units that went through text are mended;
    • `mended_length`    mending keeps the number of units;
    • `getElem?_mended`  it replaces exactly the surrogates without their other half;
    • `mended_eq_self_iff`  it keeps the units exactly if they encode a text;
    • `decode_append`    units that follow others read as they do by themselves, unless a
                         pair is split between them.
-/
import ValueText.Text.Units

namespace ValueText
namespace CodeUnit

/-! ## §1. Mending. -/

/-- A unit outside of a pair, with U+FFFD in the place of a surrogate. -/
def mend (u : CodeUnit) : CodeUnit := if isHigh u || isLow u then 0xFFFD else u

/-- The units with U+FFFD in the place of each surrogate that stands alone. -/
def mended : List CodeUnit → List CodeUnit
  | [] => []
  | [u] => [mend u]
  | u :: v :: rest =>
      if isHigh u && isLow v then u :: v :: mended rest
      else mend u :: mended (v :: rest)

theorem mended_length (us : List CodeUnit) : (mended us).length = us.length := by
  fun_induction mended us with
  | case1 => rfl
  | case2 u => rfl
  | case3 u v rest _ ih => simp [ih]
  | case4 u v rest _ ih => simpa using ih

/-! ## §2. Which units are mended. -/

section Unpaired

variable {u v : CodeUnit} {us vs : List CodeUnit}

theorem isLow_of_isHigh (h : isHigh u = true) : isLow u = false := by
  simp only [isHigh, Bool.and_eq_true, decide_eq_true_eq] at h
  simp only [isLow, Bool.and_eq_false_iff, decide_eq_false_iff_not]
  omega

theorem isHigh_of_isLow (h : isLow u = true) : isHigh u = false :=
  Bool.eq_false_iff.mpr fun hu => by simp [isLow_of_isHigh hu] at h

/-- Whether the first half of a pair stands at a place. -/
def isHighAt (us : List CodeUnit) (i : Nat) : Bool := (us[i]?).any isHigh

/-- Whether the second half of a pair stands at a place. -/
def isLowAt (us : List CodeUnit) (i : Nat) : Bool := (us[i]?).any isLow

/-- Whether the unit at a place is a surrogate without its other half, which stands behind
a first half and in front of a second one. -/
def isUnpaired (us : List CodeUnit) : Nat → Bool
  | 0 => (isHighAt us 0 && !isLowAt us 1) || isLowAt us 0
  | i + 1 => (isHighAt us (i + 1) && !isLowAt us (i + 2)) || (isLowAt us (i + 1) && !isHighAt us i)

/-- A unit in front makes a difference only to the second half of a pair that it begins. -/
theorem isUnpaired_cons (h : ¬ (isHigh u = true ∧ isLowAt us 0 = true)) (i : Nat) :
    isUnpaired (u :: us) (i + 1) = isUnpaired us i := by
  cases i with
  | zero =>
      show ((isHighAt us 0 && !isLowAt us 1) || (isLowAt us 0 && !isHigh u)) =
        ((isHighAt us 0 && !isLowAt us 1) || isLowAt us 0)
      cases hu : isHigh u <;> cases hl : isLowAt us 0 <;> simp_all
  | succ i => rfl

/-- **Mending replaces exactly the surrogates without their other half.** -/
theorem getElem?_mended (us : List CodeUnit) : ∀ i,
    (mended us)[i]? = (us[i]?).map fun u => if isUnpaired us i then 0xFFFD else u := by
  fun_induction mended us with
  | case1 => intro i; rfl
  | case2 u =>
      intro i
      cases i with
      | zero => simp [isUnpaired, mend, isHighAt, isLowAt]
      | succ i => rfl
  | case3 u v rest h ih =>
      obtain ⟨hu, hv⟩ : isHigh u = true ∧ isLow v = true := by simpa using h
      intro i
      match i with
      | 0 => simp [isUnpaired, isHighAt, isLowAt, hu, hv, isLow_of_isHigh hu]
      | 1 => simp [isUnpaired, isHighAt, isLowAt, hu, hv, isHigh_of_isLow hv]
      | i + 2 =>
          -- The second half of a pair is no first half of another one.
          have hrest : isUnpaired (u :: v :: rest) (i + 2) = isUnpaired rest i := by
            show isUnpaired (v :: rest) (i + 1) = _
            exact isUnpaired_cons (fun hc => by simp [isHigh_of_isLow hv] at hc) i
          rw [hrest]
          exact ih i
  | case4 u v rest h ih =>
      have hnot : ¬ (isHigh u = true ∧ isLow v = true) := by simpa using h
      intro i
      cases i with
      | zero =>
          have hmend : isUnpaired (u :: v :: rest) 0 = (isHigh u || isLow u) := by
            show ((isHigh u && !isLow v) || isLow u) = _
            cases hu : isHigh u <;> cases hv : isLow v <;> simp_all
          rw [hmend]
          rfl
      | succ i =>
          rw [isUnpaired_cons hnot]
          exact ih i

/-- Units that follow others read as they do by themselves, unless the first half of a pair
stands in front of the seam and the second half behind it. -/
theorem decodeChars_append (us : List CodeUnit)
    (hseam : ∀ u v, us.getLast? = some u → vs.head? = some v → ¬ (isHigh u = true ∧ isLow v = true)) :
    decodeChars (us ++ vs) = decodeChars us ++ decodeChars vs := by
  fun_induction decodeChars us with
  | case1 => rfl
  | case2 u =>
      cases vs with
      | nil => rfl
      | cons v vs =>
          have hnot : ¬ (isHigh u && isLow v) = true := by simpa using hseam u v rfl rfl
          rw [List.singleton_append, decodeChars, if_neg hnot]
          rfl
  | case3 u v rest h ih =>
      rw [List.cons_append, List.cons_append, decodeChars, if_pos h, List.cons_append]
      congr 1
      cases rest with
      | nil => rfl
      | cons x rest => exact ih fun a b ha hb => hseam a b (by simpa using ha) hb
  | case4 u v rest h ih =>
      rw [List.cons_append, List.cons_append, decodeChars, if_neg h, ← List.cons_append,
        ih fun a b ha hb => hseam a b (by simpa using ha) hb]
      rfl

theorem decode_append
    (hseam : ∀ u v, us.getLast? = some u → vs.head? = some v → ¬ (isHigh u = true ∧ isLow v = true)) :
    decode (us ++ vs) = decode us ++ decode vs := by
  rw [decode, decodeChars_append us hseam, String.ofList_append]
  rfl

/-- A text does not begin with the second half of a pair. -/
theorem isLow_head_encodeChars {cs : List Char} (h : (encodeChars cs).head? = some v) :
    isLow v = false := by
  cases cs with
  | nil => cases h
  | cons c cs =>
      rw [encodeChars, List.flatMap_cons, encodeChar] at h
      have hc := toNat_scalar c
      split at h
      · next hsmall =>
          cases h
          exact isLow_eq_false hsmall
      · next hlarge =>
          cases h
          refine isLow_of_isHigh ?_
          simp only [isHigh, toNat_ofNat_small (show 0xD800 + (c.toNat - 0x10000) / 0x400 < 0x10000 by
            omega), Bool.and_eq_true, decide_eq_true_eq]
          omega

/-- **A text that follows units reads as itself.** -/
theorem decode_append_encode (us : List CodeUnit) (s : String) :
    decode (us ++ encode s) = decode us ++ s := by
  rw [decode_append, decode_encode]
  intro u v _ hv hpair
  rw [isLow_head_encodeChars hv] at hpair
  cases hpair.2

end Unpaired

/-! ## §3. Through text and back. -/

variable {u v : CodeUnit}

theorem toNat_ofNat {n : Nat} (h : n.isValidChar) : (Char.ofNat n).toNat = n := by
  rw [Char.ofNat, dif_pos h]
  rfl

/-- A unit that is no surrogate is the code point of a character. -/
theorem encodeChar_ofNat (hh : isHigh u = false) (hl : isLow u = false) :
    encodeChar (Char.ofNat u.toNat) = [u] := by
  have hu := u.toNat_lt
  simp only [isHigh, isLow, Bool.and_eq_false_iff, decide_eq_false_iff_not] at hh hl
  have hvalid : u.toNat.isValidChar := by
    simp only [Nat.isValidChar]
    omega
  have hc : (Char.ofNat u.toNat).toNat = u.toNat := toNat_ofNat hvalid
  rw [encodeChar, hc, if_pos (by omega), UInt16.ofNat_toNat]

theorem encodeChar_single (u : CodeUnit) : encodeChar (single u) = [mend u] := by
  unfold single mend
  split
  · rfl
  · next h =>
      simp only [Bool.or_eq_true, not_or, Bool.not_eq_true] at h
      exact encodeChar_ofNat h.1 h.2

theorem encodeChar_pair (hh : isHigh u = true) (hl : isLow v = true) :
    encodeChar (pair u v) = [u, v] := by
  simp only [isHigh, isLow, Bool.and_eq_true, decide_eq_true_eq] at hh hl
  have hvalid : (0x10000 + (u.toNat - 0xD800) * 0x400 + (v.toNat - 0xDC00)).isValidChar := by
    simp only [Nat.isValidChar]
    omega
  have hc := toNat_ofNat hvalid
  rw [encodeChar, pair, hc, if_neg (by omega)]
  -- The two offsets are the quotient and the remainder of the offset of the pair.
  have hhigh : 0xD800 + (0x10000 + (u.toNat - 0xD800) * 0x400 + (v.toNat - 0xDC00) - 0x10000) / 0x400
      = u.toNat := by omega
  have hlow : 0xDC00 + (0x10000 + (u.toNat - 0xD800) * 0x400 + (v.toNat - 0xDC00) - 0x10000) % 0x400
      = v.toNat := by omega
  rw [hhigh, hlow, UInt16.ofNat_toNat, UInt16.ofNat_toNat]

theorem encodeChars_cons (c : Char) (cs : List Char) :
    encodeChars (c :: cs) = encodeChar c ++ encodeChars cs := rfl

theorem encodeChars_decodeChars (us : List CodeUnit) : encodeChars (decodeChars us) = mended us := by
  fun_induction decodeChars us with
  | case1 => rfl
  | case2 u => rw [encodeChars_cons, encodeChar_single]; rfl
  | case3 u v rest h ih =>
      have hpair : isHigh u = true ∧ isLow v = true := by simpa using h
      rw [encodeChars_cons, encodeChar_pair hpair.1 hpair.2, ih, mended, if_pos h]
      rfl
  | case4 u v rest h ih =>
      rw [encodeChars_cons, encodeChar_single, ih, mended, if_neg h]
      rfl

/-- **Units that went through text are mended.** -/
theorem encode_decode (us : List CodeUnit) : encode (decode us) = mended us := by
  rw [encode, decode, String.toList_ofList, encodeChars_decodeChars]

/-- Mending is needed exactly for units that encode no text. -/
theorem mended_eq_self_iff (us : List CodeUnit) : mended us = us ↔ ∃ s, us = encode s := by
  constructor
  · intro h
    exact ⟨decode us, by rw [encode_decode, h]⟩
  · rintro ⟨s, rfl⟩
    rw [← encode_decode, decode_encode]

end CodeUnit
end ValueText
