/-
  ValueText.Proofs.Buffer.Integers — integers in a builder.

  The room for an integer is measured on a ladder before any digit is there, and the
  digits are stored from the end of that room down, for as long as anything is left of
  the magnitude.  Neither knows of the other: that the last pass stores at the first
  place of the room is a fact about the ladder, and at a power of ten where it were off
  by one the digits would run into the content or leave a gap behind it.

  Main results:

    • `storeDigits_eq_foldlM`  the loop is one store for each place of the room, from the
                               last place to the first one;
    • `stores_digits`          what it leaves in the memory;
    • `append_integer`         an integer of any width is appended as its numeral, if
                               there is room for it.
-/
import ValueText.Proofs.Buffer.PanicFree

namespace ValueText

/-! ## §1. The loop. -/

namespace Region

/-- The digits of `n` with the places that they have from `offset` on, the last one first. -/
def digitStores (offset n : Nat) : List (CodeUnit × Nat) :=
  (((Numeral.digits n).map Numeral.digitUnit).zipIdx offset).reverse

/-- Stores a unit at its place. -/
def storeOne (r : Region) (s : CodeUnit × Nat) : Except Panic Region :=
  Check.inside (r.store? s.2 s.1)

theorem digitStores_small {n : Nat} (h : n < 10) (offset : Nat) :
    digitStores offset n = [(Numeral.digitUnit (n % 10), offset)] := by
  rw [digitStores, Numeral.digits_small h, Nat.mod_eq_of_lt h]
  rfl

theorem digitStores_large {n : Nat} (h : ¬ n < 10) (offset : Nat) :
    digitStores offset n =
      (Numeral.digitUnit (n % 10), offset + (Numeral.digits (n / 10)).length) ::
        digitStores offset (n / 10) := by
  rw [digitStores, Numeral.digits_large h, List.map_append, List.zipIdx_append,
    List.reverse_append, List.length_map]
  rfl

/-- The places of the stores are those of the room, each of them once. -/
theorem places_digitStores (offset n : Nat) :
    (digitStores offset n).map Prod.snd =
      (List.range' offset (Numeral.digits n).length).reverse := by
  rw [digitStores, List.map_reverse, List.zipIdx_map_snd, List.length_map]

/-- **The loop is one store for each place of the room**, from the last one down to `offset`. -/
theorem storeDigits_eq_foldlM (offset n : Nat) : ∀ r : Region,
    r.storeDigits (offset + (Numeral.digits n).length) n =
      (digitStores offset n).foldlM storeOne r >>= fun r => .ok (r, offset) := by
  induction n using Nat.strongRecOn with
  | _ n ih =>
    intro r
    by_cases hn : n < 10
    · rw [Numeral.digits_small hn, digitStores_small hn, List.length_singleton, storeDigits,
        Check.sub_eq (by omega), Check.bind_ok, Nat.add_sub_cancel, List.foldlM_cons]
      show r.storeOne (Numeral.digitUnit (n % 10), offset) >>= _ = _
      cases r.storeOne (Numeral.digitUnit (n % 10), offset) with
      | error p => rfl
      | ok r₁ => rw [Check.bind_ok, dif_pos (by omega)]; rfl
    · have hrest := ih (n / 10) (by omega)
      rw [Numeral.digits_large hn, digitStores_large hn, List.length_append, List.length_singleton,
        storeDigits, Check.sub_eq (by omega), Check.bind_ok, ← Nat.add_assoc, Nat.add_sub_cancel,
        List.foldlM_cons]
      generalize offset + (Numeral.digits (n / 10)).length = i at hrest ⊢
      show r.storeOne (Numeral.digitUnit (n % 10), i) >>= _ = _
      cases r.storeOne (Numeral.digitUnit (n % 10), i) with
      | error p => rfl
      | ok r₁ => rw [Check.bind_ok, dif_neg (by omega)]; exact hrest r₁

theorem capacity_le_size (r : Region) : r.capacity ≤ r.cells.size := by
  unfold capacity
  split <;> omega

/-- Units that are written stand where they were written. -/
theorem getElem?_write_self (us : List CodeUnit) : ∀ {r : Region} {i k : Nat},
    i + us.length ≤ r.cells.size → k < us.length → (r.write i us).cells[i + k]? = us[k]? := by
  induction us with
  | nil => intro r i k _ hk; cases hk
  | cons u us ih =>
      intro r i k h hk
      simp only [List.length_cons] at h hk
      cases k with
      | zero =>
          show ((r.put i u).write (i + 1) us).cells[i]? = some u
          rw [getElem?_write us (.inl (by omega)), getElem?_put_self u (by omega)]
      | succ k =>
          show ((r.put i u).write (i + 1) us).cells[i + (k + 1)]? = us[k]?
          rw [show i + (k + 1) = i + 1 + k by omega, ih (by rw [size_put]; omega) (by omega)]

/-- **What the loop leaves**: the digits in the room, and outside of it what was there. -/
theorem stores_digits {r : Region} {offset n : Nat}
    (h : offset + (Numeral.digits n).length ≤ r.capacity) :
    ∃ r', r.storeDigits (offset + (Numeral.digits n).length) n = .ok (r', offset) ∧
      (∀ k < (Numeral.digits n).length,
        r'.cells[offset + k]? = ((Numeral.digits n)[k]?).map Numeral.digitUnit) ∧
      (∀ i, i < offset ∨ offset + (Numeral.digits n).length ≤ i → r'.cells[i]? = r.cells[i]?) := by
  have hsize := r.capacity_le_size
  refine ⟨_, storeDigits_eq n h, ?_⟩
  -- The digits are as many as were counted, so that they are written like any other units.
  rw [Builder.writeDigits_eq_write, Builder.lastDigits_digits]
  refine ⟨fun k hk => ?_, fun i hi => getElem?_write _ (by rwa [List.length_map])⟩
  rw [getElem?_write_self _ (by rw [List.length_map]; omega) (by rwa [List.length_map]),
    List.getElem?_map]

end Region

/-! ## §2. The append. -/

namespace Workspace

/-- **Integers are written as exact decimal.**  For every builder of every session, every width
and every value `n` of it:

1. There is one numeral of `n`, the text of the integer, and its length is what the ladder of the
   width has counted, and one for the sign of a negative integer.
2. The append answers `true` exactly if that many units fit.  Then the numeral stands behind the
   content, and nothing else of the builder or its memory has changed.  Otherwise one more
   overflow is counted.
3. As long as memory is there, the append does so with all its checks, of which the last one
   asserts that the first digit stands at the first place of the room.
4. The ladder of the width counts the digits of every magnitude with the bits of the width.
   Hence the loop stores, from any place on, once at each place of the room, from the last one
   down to the first one, at which it ends; where the memory reaches as far, these are the
   digits in order, and no other unit of the memory has changed. -/
theorem append_integer (steps : List Step) {id : BuilderId} {b : Builder}
    (hb : (run {} steps).builderAt? id = some b) (width : IntWidth) {n : Int}
    (hn : width.Holds n) :
    (∃ us, (∀ us', Numeral.Canonical n us' ↔ us' = us) ∧ us = CodeUnit.encode (toString n) ∧
      us.length = (if n < 0 then 1 else 0) + width.digitCount n.natAbs ∧
      ((b.appendInt width n).1 = .ok true ↔ us.length ≤ b.remaining) ∧
      (us.length ≤ b.remaining → b.Lands us (b.appendInt width n).2) ∧
      (b.remaining < us.length →
        b.appendInt width n = (b.refusal us.length, { b with overflows := b.overflows + 1 }))) ∧
    (Served Check.maxUnits {} steps →
      b.appendIntChecked width n = .ok (b.appendInt width n)) ∧
    ∀ m < 2 ^ width.bits,
      width.digitCount m = (Nat.toDigits 10 m).length ∧
      ∀ (r : Region) (offset : Nat),
        (r.storeDigits (offset + width.digitCount m) m =
          (Region.digitStores offset m).foldlM Region.storeOne r >>= fun r => .ok (r, offset)) ∧
        (Region.digitStores offset m).map Prod.snd =
          (List.range' offset (width.digitCount m)).reverse ∧
        (offset + width.digitCount m ≤ r.capacity →
          ∃ r', r.storeDigits (offset + width.digitCount m) m = .ok (r', offset) ∧
            (∀ k < width.digitCount m,
              r'.cells[offset + k]? = ((Numeral.digits m)[k]?).map Numeral.digitUnit) ∧
            ∀ i, i < offset ∨ offset + width.digitCount m ≤ i → r'.cells[i]? = r.cells[i]?) := by
  have hbounded := bounded_run steps id b hb
  have happend := b.appendInt_eq_appendNumeral hn
  refine ⟨⟨Numeral.units n, fun _ => Numeral.canonical_iff, ?text, ?length, ?answer, ?fits, ?full⟩,
    ?checked, fun m hm => ?magnitudes⟩
  case text => rw [← Numeral.encode_ofInt, Numeral.ofInt_eq_toString]
  case length => rw [Numeral.length_units, IntWidth.digitCount_eq_length hn]
  case answer =>
    rw [happend]
    exact Builder.appendUnits_ok_iff hbounded _
  case fits =>
    intro hfit
    rw [happend]
    exact (Builder.lands_appendUnits hbounded hfit).2
  case full =>
    intro hfull
    rw [happend]
    exact Builder.appendUnits_of_lt hfull
  case checked =>
    intro hserved
    exact (housed_run hserved id b hb).appendIntChecked_eq hn
  case magnitudes =>
    rw [IntWidth.digitCount_eq hm]
    refine ⟨by rw [← Numeral.map_digits, List.length_map], fun r offset => ⟨?_, ?_, ?_⟩⟩
    · exact Region.storeDigits_eq_foldlM offset m r
    · exact Region.places_digitStores offset m
    · exact Region.stores_digits

/-- A builder with room for nineteen units. -/
def narrow : List Step := [.newBuilder "b" ⟨20, .error⟩, .edit "b" (.unit 0x3D)]

/-- The least value of 64 bits takes one unit more. -/
theorem append_integer_least :
    ∃ b, (run {} narrow).builderAt? ⟨0⟩ = some b ∧ IntWidth.i64.Holds (-9223372036854775808) ∧
      b.appendInt .i64 (-9223372036854775808) =
        (.error ⟨20, 19⟩, { b with overflows := b.overflows + 1 }) ∧
      IntWidth.i64.digitCount 10000000000000000000 = 20 := by
  have hholds : IntWidth.i64.Holds (-9223372036854775808) := by decide
  have hb : (run {} narrow).builderAt? ⟨0⟩ = some _ := rfl
  obtain ⟨⟨us, -, hus, -, -, -, hfull⟩, -, hladder⟩ := append_integer narrow hb .i64 hholds
  have hlength : us.length = 20 := by rw [hus]; decide +kernel
  refine ⟨_, rfl, hholds, ?_, ?_⟩
  · have happend := hfull (by rw [hlength]; decide)
    rw [hlength] at happend
    exact happend
  · rw [(hladder 10000000000000000000 (by decide)).1]
    decide +kernel

end Workspace
end ValueText
