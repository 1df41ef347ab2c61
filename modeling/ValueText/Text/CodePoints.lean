/-
  ValueText.Text.CodePoints — sets of code points, as ranges.

  A property of characters is a list of closed ranges in ascending order.  The
  look-up walks along the list and stops at the first range that starts above
  the code point, so text near the beginning of the list is looked up at once.

  Main statement: `mem_iff` (in an ascending list, the look-up finds exactly the
  code points of its ranges).
-/
namespace ValueText.CodePoints

/-- A set of code points: the first and the last one of each range. -/
abbrev Ranges := List (Nat × Nat)

/-- Whether no range is empty and each ends below the start of the next one. -/
def ascending : Ranges → Bool
  | [] => true
  | [r] => r.1 ≤ r.2
  | r :: s :: rs => r.1 ≤ r.2 && r.2 < s.1 && ascending (s :: rs)

/-- Whether a code point is in the set. -/
def mem : Ranges → Nat → Bool
  | [], _ => false
  | r :: rs, n => if n < r.1 then false else n ≤ r.2 || mem rs n

theorem ascending_tail {r : Nat × Nat} {rs : Ranges} (h : ascending (r :: rs) = true) :
    ascending rs = true := by
  cases rs with
  | nil => rfl
  | cons s rs =>
      simp only [ascending, Bool.and_eq_true] at h
      exact h.2

/-- In an ascending list every later range starts above the end of the first one. -/
theorem last_lt_of_ascending {r : Nat × Nat} {rs : Ranges} (h : ascending (r :: rs) = true) :
    r.1 ≤ r.2 ∧ ∀ s ∈ rs, r.2 < s.1 := by
  induction rs generalizing r with
  | nil => simpa [ascending] using h
  | cons t rs ih =>
      simp only [ascending, Bool.and_eq_true, decide_eq_true_eq] at h
      obtain ⟨⟨hr, hrt⟩, ht⟩ := h
      obtain ⟨hle, hlater⟩ := ih ht
      refine ⟨hr, ?_⟩
      intro s hs
      rcases List.mem_cons.mp hs with rfl | hs
      · exact hrt
      · have := hlater s hs
        omega

theorem mem_cons (r : Nat × Nat) (rs : Ranges) (n : Nat) :
    mem (r :: rs) n = if n < r.1 then false else n ≤ r.2 || mem rs n := rfl

theorem mem_iff {rs : Ranges} (h : ascending rs = true) (n : Nat) :
    mem rs n = true ↔ ∃ r ∈ rs, r.1 ≤ n ∧ n ≤ r.2 := by
  induction rs with
  | nil => simp [mem]
  | cons r rs ih =>
      obtain ⟨hle, hlater⟩ := last_lt_of_ascending h
      simp only [List.mem_cons, exists_eq_or_imp, mem_cons]
      by_cases hn : n < r.1
      · simp only [hn, if_true, Bool.false_eq_true, false_iff, not_or]
        refine ⟨by omega, ?_⟩
        rintro ⟨s, hs, hsn, _⟩
        have := hlater s hs
        omega
      · simp [hn, Nat.le_of_not_lt hn, ih (ascending_tail h)]

end ValueText.CodePoints
