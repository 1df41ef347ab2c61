/-
  ValueText.Proofs.Text.Numerals — numerals and the ladders that measure them.

  The decimal numeral of an integer is characterised by what it looks like: a minus
  sign exactly if the integer is negative, and then digits that amount to its
  magnitude, without a zero in front of others.  The ladders say how many digits
  these are before there is any.

  Main results:

    • `canonical_iff`         the units of an integer are its numeral, and its only one;
    • `encode_ofInt`          they encode the text of the integer;
    • `digitCount_eq`         the ladder of a width counts the digits of every magnitude that
                              has the bits of the width;
    • `digitCount_eq_length`  in particular those of every value of the width.
-/
import ValueText.Text.Numeral
import Mathlib.Algebra.Group.Nat.Defs
import Mathlib.Data.List.Basic
import Mathlib.Data.List.Induction

namespace ValueText

/-! ## §1. Digits. -/

namespace Numeral

theorem digits_small {n : Nat} (h : n < 10) : digits n = [n] := by rw [digits, if_pos h]

theorem digits_large {n : Nat} (h : ¬ n < 10) : digits n = digits (n / 10) ++ [n % 10] := by
  rw [digits, if_neg h]

theorem length_digits_pos (n : Nat) : 0 < (digits n).length := by
  by_cases h : n < 10
  · simp [digits_small h]
  · simp [digits_large h]

theorem digits_ne_nil (n : Nat) : digits n ≠ [] := List.ne_nil_of_length_pos (length_digits_pos n)

theorem lt_pow_digits (n : Nat) : n < 10 ^ (digits n).length := by
  induction n using Nat.strongRecOn with
  | _ n ih =>
    by_cases h : n < 10
    · simpa [digits_small h] using h
    · have hrest := ih (n / 10) (by omega)
      rw [digits_large h, List.length_append, List.length_singleton, Nat.pow_succ]
      omega

theorem pow_digits_le {n k : Nat} (h : k + 1 < (digits n).length) : 10 ^ (k + 1) ≤ n := by
  induction k generalizing n with
  | zero =>
      by_cases hn : n < 10
      · simp [digits_small hn] at h
      · simpa using hn
  | succ k ih =>
      by_cases hn : n < 10
      · simp [digits_small hn] at h
      · rw [digits_large hn, List.length_append, List.length_singleton] at h
        have hrest := ih (n := n / 10) (by omega)
        rw [Nat.pow_succ]
        omega

/-- A number between two powers of ten has as many digits as the exponent of the larger one. -/
theorem length_digits {n k : Nat} (hlow : k = 0 ∨ 10 ^ k ≤ n) (hhigh : n < 10 ^ (k + 1)) :
    (digits n).length = k + 1 := by
  have hpos := length_digits_pos n
  have hlt := lt_pow_digits n
  refine Nat.le_antisymm (Nat.le_of_not_lt fun hmore => ?_) (Nat.lt_of_not_le fun hless => ?_)
  · exact absurd (pow_digits_le hmore) (Nat.not_le_of_lt hhigh)
  · rcases hlow with rfl | hlow
    · omega
    · have hpow : 10 ^ (digits n).length ≤ 10 ^ k := Nat.pow_le_pow_right (by decide) hless
      omega

theorem digitChar_eq : ∀ d < 10, digitChar d = Nat.digitChar d := by decide

theorem map_digits (n : Nat) : (digits n).map digitChar = Nat.toDigits 10 n := by
  induction n using digits.induct with
  | case1 n h =>
      rw [digits, if_pos h, Nat.toDigits_of_lt_base h, List.map_singleton, digitChar_eq n h]
  | case2 n h ih =>
      rw [digits, if_neg h, List.map_append, ih, List.map_singleton,
        digitChar_eq _ (Nat.mod_lt n (by decide)), Nat.toDigits_eq_if (n := n) (by decide), if_neg h]

theorem ofNat_eq_repr (n : Nat) : ofNat n = n.repr := by
  rw [ofNat, map_digits, Nat.repr_eq_ofList_toDigits]

/-- **The numeral of an integer.** -/
theorem ofInt_eq_toString (n : Int) : ofInt n = toString n := by
  rw [ofInt, ofNat_eq_repr, Int.toString_eq_repr, Int.repr_eq_if]
  by_cases hn : n < 0
  · rw [if_pos hn, if_neg (by omega), show n.natAbs = (-n).toNat by omega]
  · rw [if_neg hn, if_pos (by omega), show n.natAbs = n.toNat by omega]

/-! ## §2. What a numeral is. -/

/-- The number that digits amount to, the most significant one first. -/
def value (ds : List Nat) : Nat := ds.foldl (fun v d => 10 * v + d) 0

/-- The units are the decimal numeral of the integer. -/
structure Canonical (n : Int) (us : List CodeUnit) : Prop where
  /-- A sign if the integer is negative, and digits. -/
  shape : ∃ ds : List Nat, us = (if n < 0 then [0x2D] else []) ++ ds.map digitUnit ∧
    (∀ d ∈ ds, d < 10) ∧ ds ≠ [] ∧ (ds.head? = some 0 → ds = [0]) ∧ value ds = n.natAbs

theorem value_snoc (ds : List Nat) (d : Nat) : value (ds ++ [d]) = 10 * value ds + d := by
  rw [value, List.foldl_append]
  rfl

theorem lt_of_mem_digits {n d : Nat} (h : d ∈ digits n) : d < 10 := by
  induction n using digits.induct with
  | case1 n hn => rw [digits_small hn, List.mem_singleton] at h; omega
  | case2 n hn ih =>
      rw [digits_large hn, List.mem_append, List.mem_singleton] at h
      rcases h with h | h
      · exact ih h
      · omega

theorem value_digits (n : Nat) : value (digits n) = n := by
  induction n using digits.induct with
  | case1 n hn => rw [digits_small hn]; simp [value]
  | case2 n hn ih => rw [digits_large hn, value_snoc, ih]; omega

theorem toNat_digitChar : ∀ d < 10, (digitChar d).toNat - 0x30 = d := by decide

/-- A number can be read off its numeral. -/
theorem ofNat_inj {m n : Nat} : ofNat m = ofNat n ↔ m = n := by
  have hread (k : Nat) : ((digits k).map digitChar).map (·.toNat - 0x30) = digits k := by
    conv_rhs => rw [← List.map_id (digits k)]
    rw [List.map_map]
    exact List.map_congr_left fun d hd => toNat_digitChar d (lt_of_mem_digits hd)
  constructor
  · intro h
    have hdigits := congrArg (fun s => s.toList.map (·.toNat - 0x30)) h
    simp only [ofNat, String.toList_ofList, hread] at hdigits
    rw [← value_digits m, hdigits, value_digits]
  · rintro rfl
    rfl

theorem head?_digits {n : Nat} (h : (digits n).head? = some 0) : n = 0 := by
  induction n using digits.induct with
  | case1 n hn => rw [digits_small hn] at h; simpa using h
  | case2 n hn ih =>
      rw [digits_large hn, List.head?_append_of_ne_nil _ (digits_ne_nil _)] at h
      have hzero := ih h
      omega

/-- Digits without a zero in front are the digits of what they amount to. -/
theorem digits_value (ds : List Nat) (hdigits : ∀ d ∈ ds, d < 10) (hne : ds ≠ [])
    (hzero : ds.head? = some 0 → ds = [0]) : digits (value ds) = ds := by
  -- Induction from the front: without the last digit there is no zero in front either.
  induction ds using List.reverseRecOn with
  | nil => exact absurd rfl hne
  | append_singleton init d ih =>
      have hd : d < 10 := hdigits d (by simp)
      rw [value_snoc]
      by_cases hinit : init = []
      · subst hinit
        rw [digits_small (by simp [value, hd])]
        simp [value]
      · rw [List.head?_append_of_ne_nil _ hinit] at hzero
        have hfront : init.head? ≠ some 0 := by
          intro h
          have hlength := congrArg List.length (hzero h)
          exact hinit (by simpa using hlength)
        have hrest : digits (value init) = init :=
          ih (fun e he => hdigits e (by simp [he])) hinit fun h => absurd h hfront
        have hpos : value init ≠ 0 := by
          intro h
          rw [h, digits_small (by decide)] at hrest
          rw [← hrest] at hfront
          exact hfront rfl
        rw [digits_large (by omega), show (10 * value init + d) / 10 = value init by omega, hrest,
          show (10 * value init + d) % 10 = d by omega]

theorem canonical_units (n : Int) : Canonical n (units n) := by
  refine ⟨digits n.natAbs, rfl, fun d hd => lt_of_mem_digits hd, digits_ne_nil _, fun h => ?_,
    value_digits _⟩
  rw [head?_digits h]
  exact digits_small (by decide)

/-- **An integer has one numeral.** -/
theorem canonical_iff {n : Int} {us : List CodeUnit} : Canonical n us ↔ us = units n := by
  refine ⟨?_, fun h => h ▸ canonical_units n⟩
  rintro ⟨ds, rfl, hdigits, hne, hzero, hvalue⟩
  rw [units, ← hvalue, digits_value ds hdigits hne hzero]

theorem encodeChar_digitChar : ∀ d < 10, CodeUnit.encodeChar (digitChar d) = [digitUnit d] := by
  decide

theorem encodeChars_digits {ds : List Nat} (h : ∀ d ∈ ds, d < 10) :
    CodeUnit.encodeChars (ds.map digitChar) = ds.map digitUnit := by
  induction ds with
  | nil => rfl
  | cons d ds ih =>
      have hd := encodeChar_digitChar d (h d List.mem_cons_self)
      have hrest := ih fun e he => h e (List.mem_cons_of_mem d he)
      rw [CodeUnit.encodeChars] at hrest ⊢
      rw [List.map_cons, List.flatMap_cons, hd, hrest]
      rfl

/-- **The numeral is the text of the integer.** -/
theorem encode_ofInt (n : Int) : CodeUnit.encode (ofInt n) = units n := by
  have hdigits : CodeUnit.encode (ofNat n.natAbs) = (digits n.natAbs).map digitUnit := by
    rw [CodeUnit.encode, ofNat, String.toList_ofList, encodeChars_digits fun d => lt_of_mem_digits]
  rw [ofInt, units]
  split
  · rw [CodeUnit.encode_append, hdigits]
    rfl
  · exact hdigits

theorem length_units (n : Int) :
    (units n).length = (if n < 0 then 1 else 0) + (digits n.natAbs).length := by
  rw [units, List.length_append, List.length_map]
  split <;> rfl

end Numeral

/-! ## §3. Ladders. -/

namespace IntWidth

open Numeral (digits length_digits)

theorem digitCount8_eq {n : Nat} (h : n < 2 ^ 8) : digitCount8 n = (digits n).length := by
  unfold digitCount8
  split
  · exact (length_digits (k := 0) (.inl rfl) (by omega)).symm
  split
  · exact (length_digits (k := 1) (.inr (by omega)) (by omega)).symm
  · exact (length_digits (k := 2) (.inr (by omega)) (by omega)).symm

theorem digitCount16_eq {n : Nat} (h : n < 2 ^ 16) : digitCount16 n = (digits n).length := by
  unfold digitCount16
  split
  · exact (length_digits (k := 0) (.inl rfl) (by omega)).symm
  split
  · exact (length_digits (k := 1) (.inr (by omega)) (by omega)).symm
  split
  · exact (length_digits (k := 2) (.inr (by omega)) (by omega)).symm
  split
  · exact (length_digits (k := 3) (.inr (by omega)) (by omega)).symm
  · exact (length_digits (k := 4) (.inr (by omega)) (by omega)).symm

theorem digitCount32_eq {n : Nat} (h : n < 2 ^ 32) : digitCount32 n = (digits n).length := by
  unfold digitCount32
  split
  · split
    · split
      · exact (length_digits (k := 0) (.inl rfl) (by omega)).symm
      · exact (length_digits (k := 1) (.inr (by omega)) (by omega)).symm
    split
    · exact (length_digits (k := 2) (.inr (by omega)) (by omega)).symm
    split
    · exact (length_digits (k := 3) (.inr (by omega)) (by omega)).symm
    · exact (length_digits (k := 4) (.inr (by omega)) (by omega)).symm
  split
  · split
    · exact (length_digits (k := 5) (.inr (by omega)) (by omega)).symm
    · exact (length_digits (k := 6) (.inr (by omega)) (by omega)).symm
  split
  · exact (length_digits (k := 7) (.inr (by omega)) (by omega)).symm
  split
  · exact (length_digits (k := 8) (.inr (by omega)) (by omega)).symm
  · exact (length_digits (k := 9) (.inr (by omega)) (by omega)).symm

/-- Counting goes on from a power of ten that is reached to the first one that is not, or that
is no word. -/
theorem countOn_eq {n : Nat} (h : n < 2 ^ 64) (left : Nat) : ∀ k, left + (k + 1) = 20 →
    10 ^ k ≤ n → countOn left (k + 1) (10 ^ (k + 1)) n = (digits n).length := by
  -- The invariant of the loop: the threshold is the power with the counted exponent.
  induction left with
  | zero =>
      intro k hk hreached
      obtain rfl : k = 19 := by omega
      exact (length_digits (.inr hreached) (by omega)).symm
  | succ left ih =>
      intro k hk hreached
      unfold countOn
      split
      · next hmore =>
          by_cases hword : 10 ^ (k + 1) * 10 < Nat.pow 2 64
          · rw [wordProduct?, if_pos hword]
            exact ih (k + 1) (by omega) hmore
          · rw [wordProduct?, if_neg hword]
            -- The only threshold that is reached and has no successor is 10 ^ 19.
            have hlast : 19 ≤ k + 1 := by
              refine Nat.le_of_not_lt fun hk => hword ?_
              calc 10 ^ (k + 1) * 10 = 10 ^ (k + 2) := (Nat.pow_succ ..).symm
                _ ≤ 10 ^ 19 := Nat.pow_le_pow_right (by decide) (by omega)
                _ < Nat.pow 2 64 := by decide
            obtain rfl : k = 18 := by omega
            exact (length_digits (k := 19) (.inr hmore) (by omega)).symm
      · next hless => exact (length_digits (.inr hreached) (Nat.lt_of_not_le hless)).symm

theorem digitCount64_eq {n : Nat} (h : n < 2 ^ 64) : digitCount64 n = (digits n).length := by
  unfold digitCount64
  split
  · next hsmall => exact digitCount32_eq hsmall
  · next hlarge =>
      have hreached : 10 ^ 9 ≤ n := Nat.le_trans (by decide) (Nat.le_of_not_lt hlarge)
      exact countOn_eq h 10 9 rfl hreached

/-- **Each ladder counts the digits of the magnitudes of its bits.** -/
theorem digitCount_eq {w : IntWidth} {m : Nat} (h : m < 2 ^ w.bits) :
    w.digitCount m = (digits m).length := by
  cases w with
  | i8 | u8 => exact digitCount8_eq h
  | i16 | u16 => exact digitCount16_eq h
  | i32 | u32 => exact digitCount32_eq h
  | i64 | u64 | isize | usize => exact digitCount64_eq h

/-- The magnitude of a value has the bits of its width, that of the least value included. -/
theorem natAbs_lt_of_holds {w : IntWidth} {n : Int} (h : w.Holds n) : n.natAbs < 2 ^ w.bits := by
  cases w <;> simp [Holds, least, greatest, signed, bits] at h ⊢ <;> omega

/-- **The ladder counts digits**: the length that is reserved is the length of the numeral. -/
theorem digitCount_eq_length {w : IntWidth} {n : Int} (h : w.Holds n) :
    w.digitCount n.natAbs = (digits n.natAbs).length := digitCount_eq (natAbs_lt_of_holds h)

theorem countOn_le {left count : Nat} (threshold n : Nat) (h : left + count ≤ 20) :
    countOn left count threshold n ≤ 20 := by
  induction left generalizing count threshold with
  | zero => simpa [countOn] using h
  | succ left ih =>
      unfold countOn
      split
      · split
        · exact ih _ (by omega)
        · exact Nat.le_refl _
      · omega

theorem digitCount32_le (n : Nat) : digitCount32 n ≤ 10 := by grind [digitCount32]

theorem digitCount_le (w : IntWidth) (magnitude : Nat) : w.digitCount magnitude ≤ 20 := by
  have h32 := digitCount32_le magnitude
  have h64 : digitCount64 magnitude ≤ 20 := by
    unfold digitCount64
    split
    · omega
    · exact countOn_le _ _ (by decide)
  cases w with
  | i8 | u8 =>
      show digitCount8 magnitude ≤ 20
      grind [digitCount8]
  | i16 | u16 =>
      show digitCount16 magnitude ≤ 20
      grind [digitCount16]
  | i32 | u32 => exact Nat.le_trans h32 (by decide)
  | i64 | u64 | isize | usize => exact h64

end IntWidth
end ValueText
