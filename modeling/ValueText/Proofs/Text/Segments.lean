/-
  ValueText.Proofs.Text.Segments — the segments of a path.

  A path is cut at its last pair of colons, then what stands before is cut again, until no
  pair is left.  Three colons in a row hold two pairs that overlap, and only the second one
  is cut at: the first colon stays with the segment before.  `Segments` says which lists of
  segments come from a path in this way, without cutting anything.

  Main results:

    • `cutFirst_le`            a first cut has the shortest front;
    • `not_infix_of_cutLast`, `cutLast_append`
                               a last cut is one that leaves no separator behind it, also none
                               that overlaps with its own;
    • `segments_partsFromEnd`  repeated cuts from the end find segments of the path;
    • `Segments.unique`        there are no others.
-/
import Mathlib.Data.List.Induction
import ValueText.Text.Split

namespace ValueText.Split

/-! ## §1. Cuts. -/

section Cuts

variable {sep cs a b : List Char} {s : Char} {t : List Char}

theorem cutFirst_eq_none_iff (hsep : sep ≠ []) : cutFirst sep cs = none ↔ ¬ sep <:+: cs := by
  induction cs with
  | nil => simp [cutFirst, hsep]
  | cons c cs ih =>
      rw [cutFirst, List.infix_cons_iff]
      split
      · next h => simp [List.isPrefixOf_iff_prefix.mp h]
      · next h =>
          rw [List.isPrefixOf_iff_prefix] at h
          rw [Option.map_eq_none_iff, ih, or_iff_right h]

/-- **No front of the separator is shorter than the one of the first cut.** -/
theorem cutFirst_le {a' b' : List Char} (h : cutFirst sep cs = some (a, b))
    (h' : cs = a' ++ sep ++ b') : a.length ≤ a'.length := by
  -- Induction on the text: where the separator does not start, both fronts lose a character.
  induction cs generalizing a a' with
  | nil =>
      unfold cutFirst at h
      split at h <;> cases h
      exact Nat.zero_le _
  | cons c cs ih =>
      unfold cutFirst at h
      split at h
      · cases h
        exact Nat.zero_le _
      · next hp =>
          obtain ⟨⟨a₁, b₁⟩, hcut, he⟩ := Option.map_eq_some_iff.mp h
          cases he
          cases a' with
          | nil =>
              refine absurd (List.isPrefixOf_iff_prefix.mpr ⟨b', ?_⟩) hp
              rw [h', List.nil_append]
          | cons c' a' => exact Nat.succ_le_succ (ih hcut (List.cons.inj h').2)

theorem cutLast_eq_none_iff (hsep : sep ≠ []) : cutLast sep cs = none ↔ ¬ sep <:+: cs := by
  induction cs with
  | nil => simp [cutLast, hsep]
  | cons c cs ih =>
      rw [cutLast, List.infix_cons_iff, ← List.isPrefixOf_iff_prefix]
      cases hcut : cutLast sep cs with
      | some p =>
          have hlater : sep <:+: cs := by
            by_contra h
            rw [ih.mpr h] at hcut
            cases hcut
          simp [hlater]
      | none => simp [ih.mp hcut]

/-- **Behind the last cut stands no separator, not even with the end of its own.** -/
theorem not_infix_of_cutLast (h : cutLast (s :: t) cs = some (a, b)) : ¬ s :: t <:+: t ++ b := by
  induction cs generalizing a with
  | nil => cases h
  | cons c cs ih =>
      unfold cutLast at h
      split at h
      · next p hcut =>
          cases h
          exact ih hcut
      · next hcut =>
          split at h
          · next hp =>
              -- This is the last place where the separator starts.
              have htext : cs = t ++ (c :: cs).drop (s :: t).length :=
                (List.cons.inj (eq_append_of_isPrefixOf hp)).2
              have hlater := (cutLast_eq_none_iff (List.cons_ne_nil s t)).mp hcut
              cases h
              rwa [htext] at hlater
          · cases h

theorem cutLast_append (a : List Char) (h : ¬ s :: t <:+: t ++ b) :
    cutLast (s :: t) (a ++ s :: t ++ b) = some (a, b) := by
  induction a with
  | nil =>
      have hlater : cutLast (s :: t) (t ++ b) = none :=
        (cutLast_eq_none_iff (List.cons_ne_nil s t)).mpr h
      have hp : (s :: t).isPrefixOf (s :: (t ++ b)) = true :=
        List.isPrefixOf_iff_prefix.mpr ⟨b, rfl⟩
      rw [List.nil_append, List.cons_append, cutLast, hlater]
      simp [hp]
  | cons c a ih => rw [List.cons_append, List.cons_append, cutLast, ih]

end Cuts

/-! ## §2. Segments. -/

/-- What stands between the segments of a path. -/
def colons : List Char := [':', ':']

/-- The segments of a path.  Where a segment ends with a colon, it is the first of three. -/
structure Segments (path : List Char) (segments : List (List Char)) : Prop where
  nonempty : segments ≠ []
  joined : colons.intercalate segments = path
  apart : ∀ s ∈ segments, ¬ colons <:+: s
  colon : ∀ s ∈ segments.tail, s.head? ≠ some ':'

theorem intercalate_concat (sep x : List Char) {xs : List (List Char)} (h : xs ≠ []) :
    sep.intercalate (xs ++ [x]) = sep.intercalate xs ++ sep ++ x := by
  induction xs with
  | nil => exact absurd rfl h
  | cons y ys ih =>
      cases ys with
      | nil => simp
      | cons z zs =>
          rw [List.cons_append, List.cons_append, List.intercalate_cons_cons,
            List.intercalate_cons_cons, ← List.cons_append, ih (List.cons_ne_nil z zs)]
          simp only [List.append_assoc]

/-- A segment behind another one is one that a last cut leaves behind. -/
theorem not_infix_colon_cons {s : List Char} :
    ¬ colons <:+: ':' :: s ↔ ¬ colons <:+: s ∧ s.head? ≠ some ':' := by
  have hprefix : colons <+: ':' :: s ↔ s.head? = some ':' := by
    cases s <;> simp [colons, eq_comm]
  rw [List.infix_cons_iff, hprefix, not_or, and_comm]

theorem segments_single {s : List Char} (h : ¬ colons <:+: s) : Segments s [s] where
  nonempty := List.cons_ne_nil s []
  joined := by simp
  apart := by simpa using h
  colon := by simp

theorem segments_concat {path s : List Char} {segs : List (List Char)} (hne : segs ≠ []) :
    Segments path (segs ++ [s]) ↔
      ∃ front, path = front ++ colons ++ s ∧ Segments front segs ∧ ¬ colons <:+: ':' :: s := by
  have htail : (segs ++ [s]).tail = segs.tail ++ [s] := List.tail_append_of_ne_nil hne
  rw [not_infix_colon_cons]
  constructor
  · intro h
    refine ⟨colons.intercalate segs, ?_, ⟨hne, rfl, fun x hx => ?_, fun x hx => ?_⟩, ?_, ?_⟩
    · rw [← h.joined, intercalate_concat colons s hne]
    · exact h.apart x (List.mem_append_left _ hx)
    · exact h.colon x (by rw [htail]; exact List.mem_append_left _ hx)
    · exact h.apart s (by simp)
    · exact h.colon s (by rw [htail]; simp)
  · rintro ⟨front, rfl, h, hapart, hcolon⟩
    refine ⟨by simp, ?_, fun x hx => ?_, fun x hx => ?_⟩
    · rw [intercalate_concat colons s hne, h.joined]
    · rcases List.mem_append.mp hx with hx | hx
      · exact h.apart x hx
      · rwa [List.mem_singleton.mp hx]
    · rw [htail] at hx
      rcases List.mem_append.mp hx with hx | hx
      · exact h.colon x hx
      · rwa [List.mem_singleton.mp hx]

/-- **The parts found by cutting from the end are segments of the path.** -/
theorem segments_partsFromEnd (path : List Char) :
    Segments path (partsFromEnd colons path).reverse := by
  fun_induction partsFromEnd colons path with
  | case1 path hcut =>
      exact segments_single ((cutLast_eq_none_iff (by decide)).mp hcut)
  | case2 path a b hcut hlt ih =>
      have hne : (partsFromEnd colons a).reverse ≠ [] := ih.nonempty
      rw [List.reverse_cons, segments_concat hne]
      exact ⟨a, eq_of_cutLast hcut, ih, not_infix_of_cutLast hcut⟩
  | case3 path a b hcut hge =>
      -- A cut takes the separator away, so what stands before it is shorter.
      have hlength := congrArg List.length (eq_of_cutLast hcut)
      simp only [List.length_append, colons, List.length_cons] at hlength
      omega

theorem Segments.partsFromEnd_eq {path : List Char} {segs : List (List Char)}
    (h : Segments path segs) : partsFromEnd colons path = segs.reverse := by
  -- Induction on the segments from the end; each one is what a last cut leaves behind.
  induction segs using List.reverseRecOn generalizing path with
  | nil => exact absurd rfl h.nonempty
  | append_singleton segs s ih =>
      rw [partsFromEnd.eq_def]
      by_cases hne : segs = []
      · subst hne
        have hpath : path = s := by simpa using h.joined.symm
        have hapart : ¬ colons <:+: path := hpath ▸ h.apart s (by simp)
        rw [(cutLast_eq_none_iff (by decide)).mpr hapart, hpath]
        rfl
      · obtain ⟨front, rfl, hfront, hlast⟩ := (segments_concat hne).mp h
        have hcut : cutLast colons (front ++ colons ++ s) = some (front, s) :=
          cutLast_append front hlast
        rw [hcut]
        have hlt : front.length < (front ++ colons ++ s).length := by
          simp only [List.length_append, colons, List.length_cons]
          omega
        simp only [hlt, if_true, ih hfront, List.reverse_append, List.reverse_singleton,
          List.singleton_append]

/-- **A path has one list of segments only.** -/
theorem Segments.unique {path : List Char} {segs segs' : List (List Char)}
    (h : Segments path segs) (h' : Segments path segs') : segs = segs' := by
  rw [← List.reverse_inj, ← h.partsFromEnd_eq, h'.partsFromEnd_eq]

end ValueText.Split
