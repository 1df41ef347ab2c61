/-
  ValueText.Proofs.Enumeration.SingleBits — flags of one bit each.

  If every member that is not zero has a single bit, then taking one out clears this bit
  and no other.  So no member stands in the way of another, and a value is taken apart
  completely as soon as there is a member for each of its bits, whatever the order.  The
  order of the text is that of the signed values: the sign comes first.

  Main results:

    • `existsUnique_has_iff`      the values of a single bit;
    • `parts?_isSome_of_covered`  a value all of whose bits have a member has a list;
    • `defaultText_singleBits`    when there is a list of names, and which one.
-/
import ValueText.Proofs.Enumeration.Decoding

namespace ValueText.Enumeration

/-! ## §1. Values of a single bit. -/

/-- The value of a bit. -/
def bit (i : Fin 64) : Int64 := Int64.ofBitVec (BitVec.twoPow 64 i)

@[simp] theorem has_bit (i j : Fin 64) : has (bit i) j = decide (i = j) := by
  rw [has, bit, Int64.toBitVec_ofBitVec, BitVec.getLsbD_twoPow, decide_eq_true i.isLt,
    Bool.true_and]
  exact decide_eq_decide.mpr Fin.ext_iff.symm

theorem bit_ne_zero (i : Fin 64) : bit i ≠ 0 := by
  intro h
  have hi := has_bit i i
  rw [h, has_zero, decide_eq_true rfl] at hi
  exact nomatch hi

theorem eq_bit_of_has {v : Int64} {i : Fin 64} (hi : has v i) (honly : ∀ j, has v j → j = i) :
    v = bit i := by
  refine eq_of_has fun j => ?_
  rw [has_bit]
  refine Bool.eq_iff_iff.mpr ⟨fun hj => decide_eq_true (honly j hj).symm, fun hj => ?_⟩
  rwa [← of_decide_eq_true hj]

/-- **The values of a single bit.** -/
theorem existsUnique_has_iff {v : Int64} : (∃! i, has v i) ↔ ∃ i, v = bit i := by
  constructor
  · rintro ⟨i, hi, honly⟩
    exact ⟨i, eq_bit_of_has hi honly⟩
  · rintro ⟨i, rfl⟩
    refine ⟨i, by simp, fun j (hj : has (bit i) j) => ?_⟩
    rw [has_bit] at hj
    exact (of_decide_eq_true hj).symm

/-! ## §2. Taking single bits apart. -/

/-- All members that are not zero have a single bit. -/
def SingleBits (members : List Member) : Prop :=
  ∀ m ∈ members, m.value ≠ 0 → ∃! i, has m.value i

/-- Every bit of the value is the value of a member. -/
def Covered (members : List Member) (value : Int64) : Prop :=
  ∀ i, has value i → ∃ m ∈ members, m.value = bit i

variable {members : List Member} {value : Int64} {ms : List Member}

/-- **A value all of whose bits have a member has a list.** -/
theorem parts?_isSome_of_covered (h : Covered members value) (hvalue : value ≠ 0) :
    (parts? members true value).isSome := by
  obtain ⟨rest, found, heq, hfound⟩ := takeApart_extracts (candidates members).reverse value []
  -- A bit that was left over would be that of a member for which there is room.
  have hrest : rest = 0 := by
    by_contra hne
    obtain ⟨i, hi⟩ := exists_has hne
    obtain ⟨m, hm, hbit⟩ := h i ((hfound.has_iff i).mpr (.inr hi))
    obtain ⟨m', hfirst, hvalue'⟩ := exists_first hm
    rw [hbit] at hvalue'
    have hne' : m'.value ≠ 0 := hvalue' ▸ bit_ne_zero i
    have hmem : m' ∈ (candidates members).reverse :=
      List.mem_reverse.mpr (mem_candidates_iff.mpr ⟨hne', hfirst⟩)
    refine hfound.exhausted m' hmem hne' (and_eq_right_iff.mpr fun j hj => ?_)
    rw [hvalue', has_bit] at hj
    rwa [← of_decide_eq_true hj]
  unfold parts?
  cases named? members value with
  | some m => rfl
  | none => simp [heq, hrest, hvalue]

/-- The members that add up to the value have the bits of the value, one each. -/
theorem Composes.value_eq_bit (hbits : SingleBits members) (h : Composes members value ms)
    {m : Member} (hm : m ∈ ms) : ∃ i, has value i ∧ m.value = bit i := by
  obtain ⟨i, hi⟩ := existsUnique_has_iff.mp (hbits m (h.first m hm).mem (h.nonzero m hm))
  refine ⟨i, ?_, hi⟩
  rw [← h.joined, has_joined]
  exact ⟨m, hm, by rw [hi, has_bit, decide_eq_true rfl]⟩

theorem Composes.exists_bit (hbits : SingleBits members) (h : Composes members value ms)
    {i : Fin 64} (hi : has value i) : ∃ m ∈ ms, m.value = bit i := by
  rw [← h.joined, has_joined] at hi
  obtain ⟨m, hm, hi⟩ := hi
  -- The member has this bit, and it has only one.
  obtain ⟨j, -, hj⟩ := h.value_eq_bit hbits hm
  rw [hj, has_bit] at hi
  exact ⟨m, hm, by rw [hj, of_decide_eq_true hi]⟩

/-- In ascending order there is one member of a value at most. -/
theorem eq_of_ascending (h : ms.Pairwise (·.value < ·.value)) {m m' : Member} (hm : m ∈ ms)
    (hm' : m' ∈ ms) (hvalue : m.value = m'.value) : m = m' := by
  have hfirst := named?_eq_some_iff.mpr ⟨hvalue, first_of_ascending h hm⟩
  have hfirst' := named?_eq_some_iff.mpr ⟨rfl, first_of_ascending h hm'⟩
  rw [hfirst] at hfirst'
  injection hfirst'

/-- Members with the bits of a value, each bit once, in ascending order. -/
structure NamesBits (members : List Member) (value : Int64) (ms : List Member) : Prop where
  first : ∀ m ∈ ms, First members m
  ascending : ms.Pairwise (·.value < ·.value)
  bit_of : ∀ m ∈ ms, ∃ i, has value i ∧ m.value = bit i
  member_of : ∀ i, has value i → ∃! m, m ∈ ms ∧ m.value = bit i

theorem Composes.namesBits (hbits : SingleBits members) (h : Composes members value ms) :
    NamesBits members value ms := by
  refine ⟨h.first, h.ascending, fun m hm => h.value_eq_bit hbits hm, fun i hi => ?_⟩
  obtain ⟨m, hm, hbit⟩ := h.exists_bit hbits hi
  refine ⟨m, ⟨hm, hbit⟩, ?_⟩
  rintro m' ⟨hm', hbit'⟩
  exact eq_of_ascending h.ascending hm' hm (hbit'.trans hbit.symm)

/-! ## §3. The texts. -/

/-- **If the members have single bits, then the text of a value is a list of names exactly
if each of its bits has a member.  It names one member for each bit, in ascending order.
Otherwise it is the numeral.** -/
theorem defaultText_singleBits (members : List Member) (value : Int64)
    (hbits : SingleBits members) (hvalue : value ≠ 0) :
    ((parts? members true value).isSome ↔ Covered members value) ∧
    (∀ ms, parts? members true value = some ms → NamesBits members value ms ∧
      defaultText members true value = ", ".intercalate (ms.map (·.name))) ∧
    (parts? members true value = none →
      defaultText members true value = toString value.toInt) := by
  refine ⟨⟨fun hsome i hi => ?_, fun h => parts?_isSome_of_covered h hvalue⟩, fun ms hparts => ?_,
    defaultText_of_no_parts⟩
  · obtain ⟨ms, hparts⟩ := Option.isSome_iff_exists.mp hsome
    have hcomposes := composes_of_parts? hparts hvalue
    obtain ⟨m, hm, hbit⟩ := hcomposes.exists_bit hbits hi
    exact ⟨m, (hcomposes.first m hm).mem, hbit⟩
  · exact ⟨(composes_of_parts? hparts hvalue).namesBits hbits, defaultText_of_parts hparts⟩

/-- Members of single bits, the sign among them, with a repeated value and a zero. -/
def switches : List Member :=
  [⟨"Off", 0⟩, ⟨"Slow", 4⟩, ⟨"Loud", 1⟩, ⟨"Noisy", 1⟩, ⟨"Locked", Int64.minValue⟩]

theorem switches_singleBits : SingleBits switches := by
  have hbits : ∀ m ∈ switches, m.value ≠ 0 → ∃ i, m.value = bit i := by decide +kernel
  exact fun m hm hne => existsUnique_has_iff.mpr (hbits m hm hne)

/-- The sign comes first; a value with a bit of its own has no list. -/
theorem defaultText_switches :
    SingleBits switches ∧ (Int64.minValue ||| 5 ≠ 0 ∧ (10 : Int64) ≠ 0) ∧
    (Covered switches (Int64.minValue ||| 5) ∧
      defaultText switches true (Int64.minValue ||| 5) = "Locked, Loud, Slow") ∧
    ¬ Covered switches 10 ∧ defaultText switches true 10 = toString (10 : Int) := by
  obtain ⟨hsome, hlist, -⟩ := defaultText_singleBits switches (Int64.minValue ||| 5)
    switches_singleBits (by decide)
  obtain ⟨hnone, -, hnumeral⟩ := defaultText_singleBits switches 10 switches_singleBits (by decide)
  have hparts : parts? switches true (Int64.minValue ||| 5) =
      some [⟨"Locked", Int64.minValue⟩, ⟨"Loud", 1⟩, ⟨"Slow", 4⟩] := by decide +kernel
  have hparts' : parts? switches true 10 = none := by decide +kernel
  refine ⟨switches_singleBits, by decide, ⟨hsome.mp (by rw [hparts]; rfl), ?_⟩, ?_, hnumeral hparts'⟩
  · rw [(hlist _ hparts).2]
    decide
  · rw [← hnone, hparts']
    exact Bool.false_ne_true

end ValueText.Enumeration
