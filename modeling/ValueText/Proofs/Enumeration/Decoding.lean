/-
  ValueText.Proofs.Enumeration.Decoding — the value behind a default text.

  A default text is a name, a list of names or a numeral.  No name is a numeral, and a
  list can be taken apart again if no name contains the separator: the separator ends with
  another character than it starts with, so it cannot begin inside a name either.  Names
  that tell values apart therefore make texts that do.

  Main results:

    • `intercalate_inj`         a list of texts without the separator is known from its text;
    • `defaultText_decodable`   what a default text says, and that it determines the value.
-/
import ValueText.Proofs.Enumeration.Decomposition
import ValueText.Proofs.Text.Numerals
import Mathlib

namespace ValueText

/-! ## §1. Numerals. -/

namespace Numeral

/-- The characters of numerals. -/
def IsSign (c : Char) : Prop := c.isDigit ∨ c = '-'

instance (c : Char) : Decidable (IsSign c) := by
  unfold IsSign; infer_instance

theorem isSign_of_mem {n : Int} {c : Char} (h : c ∈ (toString n).toList) : IsSign c := by
  have hdigit {k : Nat} (hk : c ∈ k.repr.toList) : c.isDigit := by
    rw [Nat.repr_eq_ofList_toDigits, String.toList_ofList] at hk
    exact Nat.isDigit_of_mem_toDigits (by decide) (by decide) hk
  -- A numeral is made of digits, with a sign before them if it is negative.
  rw [Int.toString_eq_repr, Int.repr_eq_if] at h
  split at h
  · exact .inl (hdigit h)
  · rw [String.toList_append, List.mem_append] at h
    rcases h with h | h
    · exact .inr (List.mem_singleton.mp h)
    · exact .inl (hdigit h)

/-- A text with another character is not a numeral. -/
theorem ne_toString {s : String} (h : s.toList.any fun c => ¬ IsSign c) (n : Int) :
    s ≠ toString n := by
  rintro rfl
  obtain ⟨c, hc, hsign⟩ := List.any_eq_true.mp h
  exact of_decide_eq_true hsign (isSign_of_mem hc)

end Numeral

namespace Enumeration

/-! ## §2. Lists of names. -/

/-- The separator is not in the text. -/
def Unseparated (s : String) : Prop := ¬ ", ".toList <:+: s.toList

instance (s : String) : Decidable (Unseparated s) := by
  unfold Unseparated; infer_instance

/-- Two texts end where the first separator begins. -/
theorem append_separator_inj : ∀ {as bs rest rest' : List Char},
    ¬ [',', ' '] <:+: as → ¬ [',', ' '] <:+: bs →
    as ++ ',' :: ' ' :: rest = bs ++ ',' :: ' ' :: rest' → as = bs ∧ rest = rest' := by
  -- A text that goes on behind the end of the other one begins there with the separator.
  have hbehind {b : Char} {bs rest rest' : List Char} (hbs : ¬ [',', ' '] <:+: b :: bs)
      (h : ',' :: ' ' :: rest = b :: bs ++ ',' :: ' ' :: rest') : False := by
    cases bs with
    | nil =>
        injection h with hb h
        injection h with hspace h
        exact absurd hspace (by decide)
    | cons b' bs =>
        injection h with hb h
        injection h with hspace h
        subst hb hspace
        exact hbs ⟨[], bs, rfl⟩
  intro as
  induction as with
  | nil =>
      intro bs rest rest' _ hbs h
      cases bs with
      | nil =>
          injection h with _ h
          injection h with _ h
          exact ⟨rfl, h⟩
      | cons b bs => exact (hbehind hbs h).elim
  | cons a as ih =>
      intro bs rest rest' has hbs h
      cases bs with
      | nil => exact (hbehind has h.symm).elim
      | cons b bs =>
          injection h with hab h
          subst hab
          obtain ⟨heq, hrest⟩ := ih (fun hin => has (List.infix_cons hin))
            (fun hin => hbs (List.infix_cons hin)) h
          exact ⟨congrArg (a :: ·) heq, hrest⟩

/-- The characters of a list of two texts or more. -/
theorem toList_intercalate_cons (a b : String) (as : List String) :
    (", ".intercalate (a :: b :: as)).toList =
      a.toList ++ ',' :: ' ' :: (", ".intercalate (b :: as)).toList := by
  rw [String.intercalate_cons_cons, String.toList_append, String.toList_append, List.append_assoc]
  rfl

/-- A text without the separator is not a list of two or more. -/
theorem ne_intercalate {s : String} (h : Unseparated s) (a b : String) (as : List String) :
    s ≠ ", ".intercalate (a :: b :: as) := by
  rintro rfl
  refine h ⟨a.toList, (", ".intercalate (b :: as)).toList, ?_⟩
  rw [toList_intercalate_cons, List.append_assoc]
  rfl

/-- **A list of texts without the separator is known from its text.** -/
theorem intercalate_inj : ∀ {as bs : List String}, as ≠ [] → bs ≠ [] →
    (∀ a ∈ as, Unseparated a) → (∀ b ∈ bs, Unseparated b) →
    ", ".intercalate as = ", ".intercalate bs → as = bs := by
  -- Induction on one list.  Only a list of two or more has a separator in its text, and the
  -- first one ends the first text.
  intro as
  induction as with
  | nil => intro bs h; exact absurd rfl h
  | cons a as ih =>
      intro bs _ hbs hplain hplain' h
      cases bs with
      | nil => exact absurd rfl hbs
      | cons b bs =>
          have ha := hplain a List.mem_cons_self
          have hb := hplain' b List.mem_cons_self
          cases as with
          | nil =>
              cases bs with
              | nil => rw [String.intercalate_singleton, String.intercalate_singleton] at h; rw [h]
              | cons b' bs =>
                  rw [String.intercalate_singleton] at h
                  exact absurd h (ne_intercalate ha b b' bs)
          | cons a' as =>
              cases bs with
              | nil =>
                  rw [String.intercalate_singleton] at h
                  exact absurd h.symm (ne_intercalate hb a a' as)
              | cons b' bs =>
                  have hlist := congrArg String.toList h
                  rw [toList_intercalate_cons, toList_intercalate_cons] at hlist
                  obtain ⟨hab, hrest⟩ := append_separator_inj ha hb hlist
                  have htail := ih (List.cons_ne_nil _ _) (List.cons_ne_nil _ _)
                    (fun x hx => hplain x (List.mem_cons_of_mem _ hx))
                    (fun x hx => hplain' x (List.mem_cons_of_mem _ hx)) (String.toList_inj.mp hrest)
                  rw [String.toList_inj.mp hab, htail]

/-- A list of names is not a numeral. -/
theorem intercalate_ne_toString {as : List String} (hne : as ≠ [])
    (h : ∀ a ∈ as, ∀ v : Int64, a ≠ toString v.toInt) (v : Int64) :
    ", ".intercalate as ≠ toString v.toInt := by
  match as, hne with
  | [a], _ =>
      rw [String.intercalate_singleton]
      exact h a List.mem_cons_self v
  | a :: b :: as, _ =>
      refine Numeral.ne_toString (List.any_eq_true.mpr ⟨',', ?_, by decide⟩) v.toInt
      rw [toList_intercalate_cons]
      exact List.mem_append_right _ List.mem_cons_self

/-! ## §3. Texts and their values. -/

theorem numeral_eq_toString (v : Int64) : numeral v = toString v.toInt :=
  Numeral.ofInt_eq_toString v.toInt

variable {members : List Member} {flags : Bool} {value : Int64} {ms : List Member}

theorem defaultText_of_parts (h : parts? members flags value = some ms) :
    defaultText members flags value = ", ".intercalate (ms.map (·.name)) := by
  rw [defaultText_eq, h]

theorem defaultText_of_no_parts (h : parts? members flags value = none) :
    defaultText members flags value = toString value.toInt := by
  rw [defaultText_eq, h, ← numeral_eq_toString]

/-- The names of a value are those of members, at least one of them. -/
theorem parts?_members (h : parts? members flags value = some ms) :
    ms ≠ [] ∧ (∀ m ∈ ms, m ∈ members) ∧ joined ms = value := by
  rcases parts?_cases h with ⟨m, hfirst, rfl, rfl⟩ | ⟨hvalue, hcomposes⟩
  · refine ⟨List.cons_ne_nil _ _, by simpa using hfirst.mem, ?_⟩
    exact eq_of_has fun i => by simp
  · refine ⟨fun hnil => hvalue ?_, fun m hm => (hcomposes.first m hm).mem, hcomposes.joined⟩
    rw [← hcomposes.joined, hnil, joined_nil]

/-- Members that have the same names have the same values. -/
theorem joined_eq_of_names (hnames : ∀ m ∈ members, ∀ m' ∈ members, m.name = m'.name →
    m.value = m'.value) : ∀ {ms ms' : List Member}, (∀ m ∈ ms, m ∈ members) →
    (∀ m ∈ ms', m ∈ members) → ms.map (·.name) = ms'.map (·.name) → joined ms = joined ms' := by
  intro ms
  induction ms with
  | nil =>
      intro ms' _ _ h
      rw [List.map_eq_nil_iff.mp h.symm]
  | cons m ms ih =>
      intro ms' hms hms' h
      cases ms' with
      | nil => exact nomatch h
      | cons m' ms' =>
          injection h with hname h
          rw [joined_cons, joined_cons, ih (fun x hx => hms x (List.mem_cons_of_mem _ hx))
            (fun x hx => hms' x (List.mem_cons_of_mem _ hx)) h,
            hnames m (hms m List.mem_cons_self) m' (hms' m' List.mem_cons_self) hname]

/-- Names that tell values apart make texts that do. -/
theorem defaultText_injective
    (hnames : ∀ m ∈ members, ∀ m' ∈ members, m.name = m'.name → m.value = m'.value)
    (hplain : ∀ m ∈ members, Unseparated m.name)
    (hnumeral : ∀ m ∈ members, ∀ v : Int64, m.name ≠ toString v.toInt) :
    Function.Injective (defaultText members flags) := by
  have hall {P : String → Prop} (hP : ∀ m ∈ members, P m.name) {ms : List Member}
      (hms : ∀ m ∈ ms, m ∈ members) : ∀ a ∈ ms.map (·.name), P a := by
    intro a ha
    obtain ⟨m, hm, rfl⟩ := List.mem_map.mp ha
    exact hP m (hms m hm)
  have hnone {ms : List Member} {v : Int64} (w : Int64) (h : parts? members flags v = some ms) :
      ", ".intercalate (ms.map (·.name)) ≠ toString w.toInt := by
    obtain ⟨hne, hms, -⟩ := parts?_members h
    exact intercalate_ne_toString (by simpa using hne) (hall hnumeral hms) w
  -- Two numerals, two lists, or one of each, which are never the same text.
  intro v w h
  cases hv : parts? members flags v with
  | none =>
      cases hw : parts? members flags w with
      | none =>
          rw [defaultText_of_no_parts hv, defaultText_of_no_parts hw, Int.toString_eq_repr,
            Int.toString_eq_repr] at h
          exact Int64.toInt_inj.mp (Int.repr_inj.mp h)
      | some ms' =>
          rw [defaultText_of_no_parts hv, defaultText_of_parts hw] at h
          exact absurd h.symm (hnone v hw)
  | some ms =>
      cases hw : parts? members flags w with
      | none =>
          rw [defaultText_of_parts hv, defaultText_of_no_parts hw] at h
          exact absurd h (hnone w hv)
      | some ms' =>
          obtain ⟨hne, hms, hjoined⟩ := parts?_members hv
          obtain ⟨hne', hms', hjoined'⟩ := parts?_members hw
          rw [defaultText_of_parts hv, defaultText_of_parts hw] at h
          have hlist := intercalate_inj (by simpa using hne) (by simpa using hne')
            (hall hplain hms) (hall hplain hms') h
          rw [← hjoined, ← hjoined']
          exact joined_eq_of_names hnames hms hms' hlist

/-- **A default text is the name of the first member with the value; or, for flags, a list
of first names that add up to a value without a name; or the numeral of such a value.  Names
that tell values apart, do not contain the separator and are not numerals make texts that
tell values apart.** -/
theorem defaultText_decodable (members : List Member) (flags : Bool) :
    (∀ value : Int64,
      (∃ m, First members m ∧ m.value = value ∧ defaultText members flags value = m.name) ∨
      (∀ m ∈ members, m.value ≠ value) ∧
        (flags = true ∧ value ≠ 0 ∧ (∃ ms, Composes members value ms ∧
            defaultText members flags value = ", ".intercalate (ms.map (·.name))) ∨
          defaultText members flags value = toString value.toInt)) ∧
    ((∀ m ∈ members, ∀ m' ∈ members, m.name = m'.name → m.value = m'.value) →
      (∀ m ∈ members, Unseparated m.name) →
      (∀ m ∈ members, ∀ v : Int64, m.name ≠ toString v.toInt) →
      Function.Injective (defaultText members flags)) := by
  refine ⟨fun value => ?_, defaultText_injective⟩
  cases hnamed : named? members value with
  | some m =>
      obtain ⟨hvalue, hfirst⟩ := named?_eq_some_iff.mp hnamed
      refine .inl ⟨m, hfirst, hvalue, ?_⟩
      rw [defaultText_of_parts (parts?_of_named hnamed flags), List.map_singleton,
        String.intercalate_singleton]
  | none =>
      refine .inr ⟨named?_eq_none_iff.mp hnamed, ?_⟩
      cases hparts : parts? members flags value with
      | none => exact .inr (defaultText_of_no_parts hparts)
      | some ms =>
          obtain ⟨hflags, hvalue, hcomposes⟩ := parts?_of_unnamed hnamed hparts
          exact .inl ⟨hflags, hvalue, ms, hcomposes, defaultText_of_parts hparts⟩

/-- Members with a repeated, an overlapping and a negative value. -/
def permissions : List Member :=
  [⟨"None", 0⟩, ⟨"Read", 1⟩, ⟨"Write", 2⟩, ⟨"Both", 3⟩, ⟨"Look", 1⟩, ⟨"Locked", Int64.minValue⟩]

/-- The texts of these members tell all values apart. -/
theorem defaultText_permissions :
    (∀ m ∈ permissions, ∀ m' ∈ permissions, m.name = m'.name → m.value = m'.value) ∧
    (∀ m ∈ permissions, Unseparated m.name) ∧
    (∀ m ∈ permissions, ∀ v : Int64, m.name ≠ toString v.toInt) ∧
    Function.Injective (defaultText permissions true) := by
  have hnames : ∀ m ∈ permissions, ∀ m' ∈ permissions, m.name = m'.name → m.value = m'.value := by
    decide
  have hplain : ∀ m ∈ permissions, Unseparated m.name := by decide
  have hletters : ∀ m ∈ permissions, m.name.toList.any fun c => ¬ Numeral.IsSign c := by decide
  have hnumeral : ∀ m ∈ permissions, ∀ v : Int64, m.name ≠ toString v.toInt :=
    fun m hm v => Numeral.ne_toString (hletters m hm) v.toInt
  exact ⟨hnames, hplain, hnumeral,
    (defaultText_decodable permissions true).2 hnames hplain hnumeral⟩

end Enumeration
end ValueText
