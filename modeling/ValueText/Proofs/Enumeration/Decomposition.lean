/-
  ValueText.Proofs.Enumeration.Decomposition — values taken apart into members.

  A value is a set of sixty-four bits, the sign among them.  The members a value may be
  made of are the first ones declared with a value that is not zero, in ascending order.
  From the greatest one down each is taken out if all its bits are still there.  What is
  taken out at one place is gone at the next, so the members found share no bits; and
  what is passed over once does not fit later either, since bits only go away.

  Main results:

    • `named?_eq_some_iff`    a value has the name of the first member declared with it;
    • `mem_candidates_iff`, `candidates_ascending`
                              which members a value may be made of, and their order;
    • `takeApart_extracts`    what the loop takes out and what it leaves;
    • `defaultText_eq`        the text of a value from the members it is made of;
    • `composes_of_parts?`    these members are disjoint, ascending and add up to the value.
-/
import ValueText.Enumeration
import ValueText.Proofs.Sorting
import Mathlib.Data.List.Basic

namespace ValueText.Enumeration

/-! ## §1. Values as sets of bits. -/

/-- Whether a bit of a value is set; the last one is the sign. -/
def has (v : Int64) (i : Fin 64) : Bool := v.toBitVec.getLsbD i

@[simp] theorem has_zero (i : Fin 64) : has 0 i = false := BitVec.getLsbD_zero

@[simp] theorem has_and (v w : Int64) (i : Fin 64) : has (v &&& w) i = (has v i && has w i) := by
  rw [has, Int64.toBitVec_and, BitVec.getLsbD_and, has, has]

@[simp] theorem has_or (v w : Int64) (i : Fin 64) : has (v ||| w) i = (has v i || has w i) := by
  rw [has, Int64.toBitVec_or, BitVec.getLsbD_or, has, has]

@[simp] theorem has_not (v : Int64) (i : Fin 64) : has (~~~v) i = !has v i := by
  rw [has, Int64.toBitVec_not, BitVec.getLsbD_not, has, decide_eq_true i.isLt, Bool.true_and]

theorem eq_of_has {v w : Int64} (h : ∀ i, has v i = has w i) : v = w :=
  Int64.toBitVec_inj.mp (BitVec.eq_of_getLsbD_eq fun i hi => h ⟨i, hi⟩)

theorem eq_zero_iff {v : Int64} : v = 0 ↔ ∀ i, has v i = false := by
  refine ⟨fun h i => by rw [h, has_zero], fun h => eq_of_has fun i => ?_⟩
  rw [h, has_zero]

/-- A value that is not zero has a bit. -/
theorem exists_has {v : Int64} (h : v ≠ 0) : ∃ i, has v i := by
  by_contra hnone
  exact h (eq_zero_iff.mpr fun i => Bool.eq_false_iff.mpr fun hi => hnone ⟨i, hi⟩)

/-- All bits of `w` are set in `v`. -/
theorem and_eq_right_iff {v w : Int64} : v &&& w = w ↔ ∀ i, has w i → has v i := by
  constructor
  · intro h i hi
    rw [← h, has_and, Bool.and_eq_true] at hi
    exact hi.1
  · intro h
    refine eq_of_has fun i => ?_
    rw [has_and]
    cases hw : has w i with
    | false => rw [Bool.and_false]
    | true => rw [h i hw, Bool.and_true]

/-- No bit is set in both values. -/
theorem and_eq_zero_iff {v w : Int64} : v &&& w = 0 ↔ ∀ i, has v i → ¬ has w i := by
  rw [eq_zero_iff]
  refine forall_congr' fun i => ?_
  rw [has_and, Bool.and_eq_false_imp, Bool.not_eq_true]

/-- The bits of some members together. -/
def joined (ms : List Member) : Int64 := ms.foldr (fun m v => m.value ||| v) 0

@[simp] theorem joined_nil : joined [] = 0 := rfl

@[simp] theorem joined_cons (m : Member) (ms : List Member) :
    joined (m :: ms) = m.value ||| joined ms := rfl

theorem has_joined {ms : List Member} {i : Fin 64} :
    has (joined ms) i ↔ ∃ m ∈ ms, has m.value i := by
  induction ms with
  | nil => simp
  | cons m ms ih => simp only [joined_cons, has_or, Bool.or_eq_true, ih, List.exists_mem_cons_iff]

theorem joined_reverse (ms : List Member) : joined ms.reverse = joined ms := by
  refine eq_of_has fun i => Bool.eq_iff_iff.mpr ?_
  simp only [has_joined, List.mem_reverse]

/-! ## §2. The first member of a value. -/

/-- No member of the same value is declared before this one. -/
def First (members : List Member) (m : Member) : Prop :=
  ∃ before after, members = before ++ m :: after ∧ ∀ m' ∈ before, m'.value ≠ m.value

theorem First.mem {members : List Member} {m : Member} (h : First members m) : m ∈ members := by
  obtain ⟨before, after, rfl, -⟩ := h
  exact List.mem_append_right _ List.mem_cons_self

/-- **A value has the name of the first member declared with it.** -/
theorem named?_eq_some_iff {members : List Member} {v : Int64} {m : Member} :
    named? members v = some m ↔ m.value = v ∧ First members m := by
  rw [named?, List.find?_eq_some_iff_append]
  constructor
  · rintro ⟨hv, before, after, rfl, hbefore⟩
    obtain rfl := of_decide_eq_true hv
    exact ⟨rfl, before, after, rfl, fun m' hm' => by simpa using hbefore m' hm'⟩
  · rintro ⟨rfl, before, after, rfl, hbefore⟩
    exact ⟨decide_eq_true rfl, before, after, rfl, fun m' hm' => by simpa using hbefore m' hm'⟩

theorem named?_eq_none_iff {members : List Member} {v : Int64} :
    named? members v = none ↔ ∀ m ∈ members, m.value ≠ v := by
  simp [named?]

/-- Of the members with a value there is a first one. -/
theorem exists_first {members : List Member} {m : Member} (h : m ∈ members) :
    ∃ m', First members m' ∧ m'.value = m.value := by
  cases hnamed : named? members m.value with
  | none => exact absurd rfl (named?_eq_none_iff.mp hnamed m h)
  | some m' =>
      obtain ⟨hvalue, hfirst⟩ := named?_eq_some_iff.mp hnamed
      exact ⟨m', hfirst, hvalue⟩

/-! ## §3. The members a value may be made of. -/

/-- Values in ascending order, counted from the least one. -/
def rank (m : Member) : Nat := (m.value.toInt - Int64.minValue.toInt).toNat

theorem rank_lt_iff {m m' : Member} : rank m < rank m' ↔ m.value < m'.value := by
  rw [Int64.lt_iff_toInt_lt]
  have h := Int64.minValue_le_toInt m.value
  have h' := Int64.minValue_le_toInt m'.value
  unfold rank
  omega

theorem rank_eq_iff {m m' : Member} : rank m = rank m' ↔ m.value = m'.value := by
  rw [← Int64.toInt_inj]
  have h := Int64.minValue_le_toInt m.value
  have h' := Int64.minValue_le_toInt m'.value
  unfold rank
  omega

theorem sortByValue_eq (ms : List Member) :
    sortByValue ms = StableSort.sort (fun m m' => rank m < rank m') ms := by
  simp only [sortByValue, rank_lt_iff]

/-- Sorting leaves the first member of a value in front of the others. -/
theorem named?_sortByValue (ms : List Member) (v : Int64) :
    named? (sortByValue ms) v = named? ms v := by
  -- Both sides read the head of the members with this value, and sorting keeps their order.
  by_cases hv : ∃ m ∈ ms, m.value = v
  · obtain ⟨m, -, rfl⟩ := hv
    have hclass (l : List Member) :
        named? l m.value = (StableSort.ofNumber rank (rank m) l).head? := by
      simp only [named?, StableSort.ofNumber, List.head?_filter, rank_eq_iff]
    rw [hclass, hclass, sortByValue_eq, StableSort.ofNumber_sort]
  · have hnone : ∀ m ∈ ms, m.value ≠ v := fun m hm he => hv ⟨m, hm, he⟩
    rw [named?_eq_none_iff.mpr hnone, named?_eq_none_iff]
    intro m hm
    exact hnone m ((StableSort.sort_perm _ ms).mem_iff.mp hm)

theorem dropRepeats_sublist (ms : List Member) : (dropRepeats ms).Sublist ms := by
  induction ms using dropRepeats.induct with
  | case1 => simp [dropRepeats]
  | case2 m => simp [dropRepeats]
  | case3 m m' rest heq ih =>
      rw [dropRepeats, if_pos heq]
      exact ih.trans ((List.sublist_cons_self m' rest).cons_cons m)
  | case4 m m' rest hne ih =>
      rw [dropRepeats, if_neg hne]
      exact ih.cons_cons m

/-- What is dropped is not the first member of its value. -/
theorem named?_dropRepeats (ms : List Member) (v : Int64) :
    named? (dropRepeats ms) v = named? ms v := by
  induction ms using dropRepeats.induct with
  | case1 => rw [dropRepeats]
  | case2 m => rw [dropRepeats]
  | case3 m m' rest heq ih =>
      -- The one that stays is found before the one that is dropped.
      rw [dropRepeats, if_pos heq, ih]
      simp only [named?, List.find?_cons, heq]
      cases decide (m.value = v) <;> rfl
  | case4 m m' rest hne ih =>
      rw [dropRepeats, if_neg hne]
      rw [named?, List.find?_cons, ← named?, ih]
      rfl

theorem dropRepeats_ascending (ms : List Member) (h : StableSort.Ascending rank ms) :
    (dropRepeats ms).Pairwise (·.value < ·.value) := by
  induction ms using dropRepeats.induct with
  | case1 => simp [dropRepeats]
  | case2 m => simp [dropRepeats]
  | case3 m m' rest heq ih =>
      rw [dropRepeats, if_pos heq]
      exact ih (h.sublist ((List.sublist_cons_self m' rest).cons_cons m))
  | case4 m m' rest hne ih =>
      rw [dropRepeats, if_neg hne]
      obtain ⟨hm, hrest⟩ := List.pairwise_cons.mp h
      refine List.pairwise_cons.mpr ⟨fun x hx => ?_, ih hrest⟩
      -- The next value is another one, and all later ones are at least that.
      have hm' : rank m < rank m' :=
        Nat.lt_of_le_of_ne (hm m' List.mem_cons_self) fun he => hne (rank_eq_iff.mp he).symm
      refine rank_lt_iff.mp (Nat.lt_of_lt_of_le hm' ?_)
      rcases List.mem_cons.mp ((dropRepeats_sublist _).mem hx) with rfl | hx
      · exact Nat.le_refl _
      · exact (List.pairwise_cons.mp hrest).1 x hx

theorem candidates_ascending (members : List Member) :
    (candidates members).Pairwise (·.value < ·.value) := by
  refine dropRepeats_ascending _ ?_
  rw [sortByValue_eq]
  exact StableSort.ascending_sort _

theorem named?_candidates (members : List Member) {v : Int64} (h : v ≠ 0) :
    named? (candidates members) v = named? members v := by
  rw [candidates, named?_dropRepeats, named?_sortByValue, named?, List.find?_filter, named?]
  congr 1
  funext m
  by_cases hm : m.value = v <;> simp [hm, h]

theorem candidates_ne_zero {members : List Member} {m : Member} (h : m ∈ candidates members) :
    m.value ≠ 0 := by
  have hsorted := (dropRepeats_sublist _).mem h
  rw [sortByValue, (StableSort.sort_perm _ _).mem_iff] at hsorted
  exact of_decide_eq_true (List.mem_filter.mp hsorted).2

/-- In ascending order no member shares its value with an earlier one. -/
theorem first_of_ascending {ms : List Member} (h : ms.Pairwise (·.value < ·.value)) {m : Member}
    (hm : m ∈ ms) : First ms m := by
  obtain ⟨before, after, rfl⟩ := List.append_of_mem hm
  refine ⟨before, after, rfl, fun m' hm' he => ?_⟩
  have hlt := (List.pairwise_append.mp h).2.2 m' hm' m List.mem_cons_self
  rw [he] at hlt
  exact Int64.lt_irrefl hlt

/-- **A value may be made of the first member of each value that is not zero.** -/
theorem mem_candidates_iff {members : List Member} {m : Member} :
    m ∈ candidates members ↔ m.value ≠ 0 ∧ First members m := by
  -- A value that is not zero has the same first member in both lists.
  constructor
  · intro h
    have hne := candidates_ne_zero h
    have hnamed : named? (candidates members) m.value = some m :=
      named?_eq_some_iff.mpr ⟨rfl, first_of_ascending (candidates_ascending members) h⟩
    rw [named?_candidates members hne] at hnamed
    exact ⟨hne, (named?_eq_some_iff.mp hnamed).2⟩
  · rintro ⟨hne, hfirst⟩
    have hnamed : named? members m.value = some m := named?_eq_some_iff.mpr ⟨rfl, hfirst⟩
    rw [← named?_candidates members hne] at hnamed
    exact (named?_eq_some_iff.mp hnamed).2.mem

/-! ## §4. The loop. -/

/-- No two members share a bit. -/
def Disjoint (ms : List Member) : Prop := ms.Pairwise fun m m' => m.value &&& m'.value = 0

/-- Taking members out of `remaining`, in the order of `ms`, finds `found` and leaves `rest`. -/
structure Extracts (ms : List Member) (remaining rest : Int64) (found : List Member) : Prop where
  sublist : found.Sublist ms
  disjoint : Disjoint found
  /-- The bits that were there are those of the members found and those that are left. -/
  bits : remaining = joined found ||| rest
  apart : joined found &&& rest = 0
  /-- What is left has no room for any of the members. -/
  exhausted : ∀ m ∈ ms, m.value ≠ 0 → rest &&& m.value ≠ m.value

namespace Extracts

variable {m : Member} {ms found : List Member} {remaining rest : Int64}

theorem has_iff (h : Extracts ms remaining rest found) (i : Fin 64) :
    has remaining i ↔ has (joined found) i ∨ has rest i := by
  rw [h.bits, has_or, Bool.or_eq_true]

/-- The member at hand fits and is taken out. -/
theorem take (hfits : remaining &&& m.value = m.value)
    (h : Extracts ms (remaining &&& ~~~m.value) rest found) :
    Extracts (m :: ms) remaining rest (m :: found) := by
  have hfits := and_eq_right_iff.mp hfits
  -- The bits of the member are gone from what the other members were found in.
  have hgone {i : Fin 64} (hi : has m.value i) : ¬ (has (joined found) i ∨ has rest i) := by
    rw [← h.has_iff, has_and, has_not, hi]
    simp
  have happart := and_eq_zero_iff.mp h.apart
  refine ⟨h.sublist.cons_cons m, List.pairwise_cons.mpr ⟨fun m' hm' => ?_, h.disjoint⟩, ?_, ?_, ?_⟩
  · refine and_eq_zero_iff.mpr fun i hi hi' => hgone hi (.inl ?_)
    exact has_joined.mpr ⟨m', hm', hi'⟩
  · refine eq_of_has fun i => Bool.eq_iff_iff.mpr ?_
    have hrest := h.has_iff i
    rw [has_and, has_not, Bool.and_eq_true, Bool.not_eq_true'] at hrest
    rw [joined_cons, has_or, has_or, Bool.or_eq_true, Bool.or_eq_true, or_assoc, ← hrest]
    cases hi : has m.value i with
    | true => simp [hfits i hi]
    | false => simp
  · refine and_eq_zero_iff.mpr fun i hi hrest => ?_
    rw [joined_cons, has_or, Bool.or_eq_true] at hi
    rcases hi with hi | hi
    · exact hgone hi (.inr hrest)
    · exact happart i hi hrest
  · intro m' hm' hne hroom
    rcases List.mem_cons.mp hm' with rfl | hm'
    · obtain ⟨i, hi⟩ := exists_has hne
      exact hgone hi (.inr (and_eq_right_iff.mp hroom i hi))
    · exact h.exhausted m' hm' hne hroom

/-- The member at hand does not fit. -/
theorem pass (hfits : remaining &&& m.value ≠ m.value) (h : Extracts ms remaining rest found) :
    Extracts (m :: ms) remaining rest found := by
  refine ⟨h.sublist.cons m, h.disjoint, h.bits, h.apart, fun m' hm' hne hroom => ?_⟩
  rcases List.mem_cons.mp hm' with rfl | hm'
  · refine hfits (and_eq_right_iff.mpr fun i hi => (h.has_iff i).mpr (.inr ?_))
    exact and_eq_right_iff.mp hroom i hi
  · exact h.exhausted m' hm' hne hroom

end Extracts

/-- **What the loop takes out and what it leaves.** -/
theorem takeApart_extracts (ms : List Member) :
    ∀ (remaining : Int64) (taken : List Member), ∃ rest found,
      takeApart ms remaining taken = (rest, found.reverse ++ taken) ∧
        Extracts ms remaining rest found := by
  -- Induction on the members that are still to come, for any bits and any members before.
  induction ms with
  | nil =>
      intro remaining taken
      refine ⟨remaining, [], rfl, List.Sublist.refl [], List.Pairwise.nil, ?_, ?_, by simp⟩
      · exact eq_of_has fun i => by simp
      · exact and_eq_zero_iff.mpr fun i hi => by simp at hi
  | cons m ms ih =>
      intro remaining taken
      by_cases hfits : remaining &&& m.value = m.value
      · obtain ⟨rest, found, heq, hfound⟩ := ih (remaining &&& ~~~m.value) (m :: taken)
        refine ⟨rest, m :: found, ?_, hfound.take hfits⟩
        rw [takeApart, if_pos hfits, heq, List.reverse_cons, List.append_assoc]
        rfl
      · obtain ⟨rest, found, heq, hfound⟩ := ih remaining taken
        refine ⟨rest, found, ?_, hfound.pass hfits⟩
        rw [takeApart, if_neg hfits, heq]

/-! ## §5. The members a value is made of. -/

/-- The members whose names are the text of a value, in the order of the text. -/
def parts? (members : List Member) (flags : Bool) (value : Int64) : Option (List Member) :=
  match named? members value with
  | some m => some [m]
  | none =>
      if !flags || value = 0 then none
      else
        let (rest, taken) := takeApart (candidates members).reverse value []
        if rest = 0 then some taken else none

/-- **The text of a value is the list of the names, or its numeral.** -/
theorem defaultText_eq (members : List Member) (flags : Bool) (value : Int64) :
    defaultText members flags value =
      match parts? members flags value with
      | some ms => ", ".intercalate (ms.map (·.name))
      | none => numeral value := by
  unfold defaultText parts?
  cases named? members value with
  | some m => exact String.intercalate_singleton.symm
  | none =>
      dsimp only
      split
      · rfl
      · split
        · rfl
        · rfl

/-- A list of members that add up to a value. -/
structure Composes (members : List Member) (value : Int64) (ms : List Member) : Prop where
  first : ∀ m ∈ ms, First members m
  nonzero : ∀ m ∈ ms, m.value ≠ 0
  ascending : ms.Pairwise (·.value < ·.value)
  disjoint : Disjoint ms
  joined : joined ms = value

/-- One member that is not zero. -/
theorem Composes.single {members : List Member} {m : Member} (h : First members m)
    (hne : m.value ≠ 0) : Composes members m.value [m] where
  first := by simpa using h
  nonzero := by simpa using hne
  ascending := List.pairwise_singleton _ _
  disjoint := List.pairwise_singleton _ _
  joined := eq_of_has fun i => by simp

/-- Members taken out of a value of which nothing is left, in ascending order again. -/
theorem Composes.of_extracts {members found : List Member} {value : Int64}
    (h : Extracts (candidates members).reverse value 0 found) :
    Composes members value found.reverse := by
  have hsublist : found.reverse.Sublist (candidates members) := by
    have := h.sublist.reverse
    rwa [List.reverse_reverse] at this
  have hmem {m : Member} (hm : m ∈ found.reverse) := mem_candidates_iff.mp (hsublist.mem hm)
  refine ⟨fun m hm => (hmem hm).2, fun m hm => (hmem hm).1,
    (candidates_ascending members).sublist hsublist, ?_, ?_⟩
  · refine List.pairwise_reverse.mpr (h.disjoint.imp fun {m m'} hdisjoint => ?_)
    rwa [Int64.and_comm]
  · rw [joined_reverse, h.bits]
    exact eq_of_has fun i => by simp

/-- The members of a value without a name of its own. -/
theorem parts?_of_unnamed {members : List Member} {flags : Bool} {value : Int64} {ms : List Member}
    (hnamed : named? members value = none) (h : parts? members flags value = some ms) :
    flags = true ∧ value ≠ 0 ∧ Composes members value ms := by
  obtain ⟨rest, found, heq, hfound⟩ := takeApart_extracts (candidates members).reverse value []
  rw [List.append_nil] at heq
  unfold parts? at h
  rw [hnamed] at h
  dsimp only at h
  split at h
  · exact nomatch h
  · next hflags =>
      rw [heq] at h
      dsimp only at h
      split at h
      · next hrest =>
          subst hrest
          injection h with h
          subst h
          have hflags : flags = true ∧ value ≠ 0 := by simpa using hflags
          exact ⟨hflags.1, hflags.2, .of_extracts hfound⟩
      · exact nomatch h

theorem parts?_of_named {members : List Member} {value : Int64} {m : Member}
    (h : named? members value = some m) (flags : Bool) :
    parts? members flags value = some [m] := by
  rw [parts?, h]

/-- The members of a value are the first one with the value, or several that add up to it. -/
theorem parts?_cases {members : List Member} {flags : Bool} {value : Int64} {ms : List Member}
    (h : parts? members flags value = some ms) :
    (∃ m, First members m ∧ m.value = value ∧ ms = [m]) ∨
      value ≠ 0 ∧ Composes members value ms := by
  cases hnamed : named? members value with
  | none => exact .inr (parts?_of_unnamed hnamed h).2
  | some m =>
      rw [parts?_of_named hnamed] at h
      injection h with h
      obtain ⟨hvalue, hfirst⟩ := named?_eq_some_iff.mp hnamed
      exact .inl ⟨m, hfirst, hvalue, h.symm⟩

/-- **The members of a value that is not zero add up to it.** -/
theorem composes_of_parts? {members : List Member} {flags : Bool} {value : Int64}
    {ms : List Member} (h : parts? members flags value = some ms) (hvalue : value ≠ 0) :
    Composes members value ms := by
  rcases parts?_cases h with ⟨m, hfirst, rfl, rfl⟩ | ⟨-, hcomposes⟩
  · exact .single hfirst hvalue
  · exact hcomposes

end ValueText.Enumeration
