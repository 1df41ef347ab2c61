/-
  ValueText.Text.Split — cutting text at a separator.

  All cuts are made on lists of characters:

    • `cutFirst`    at the first place where the separator starts;
    • `cutLast`     at the last such place;
    • `partsFromEnd` at every place found by cutting at the last one again.

  Main statements: `eq_of_cutFirst` and `eq_of_cutLast` (a cut loses nothing but
  the separator).
-/
namespace ValueText.Split

/-- What stands before and behind the first occurrence of the separator. -/
def cutFirst (sep : List Char) : List Char → Option (List Char × List Char)
  | [] => if sep.isEmpty then some ([], []) else none
  | c :: cs =>
      if sep.isPrefixOf (c :: cs) then some ([], (c :: cs).drop sep.length)
      else (cutFirst sep cs).map fun p => (c :: p.1, p.2)

/-- What stands before and behind the last occurrence of the separator. -/
def cutLast (sep : List Char) : List Char → Option (List Char × List Char)
  | [] => if sep.isEmpty then some ([], []) else none
  | c :: cs =>
      match cutLast sep cs with
      | some p => some (c :: p.1, p.2)
      | none =>
          if sep.isPrefixOf (c :: cs) then some ([], (c :: cs).drop sep.length) else none

theorem eq_append_of_isPrefixOf {sep cs : List Char} (h : sep.isPrefixOf cs = true) :
    cs = sep ++ cs.drop sep.length := by
  obtain ⟨t, rfl⟩ := List.isPrefixOf_iff_prefix.mp h
  simp

theorem eq_of_cutFirst {sep : List Char} :
    ∀ {cs a b : List Char}, cutFirst sep cs = some (a, b) → cs = a ++ sep ++ b
  | [], a, b, h => by
      cases sep <;> simp_all [cutFirst]
  | c :: cs, a, b, h => by
      unfold cutFirst at h
      split at h
      · next hp =>
          simp only [Option.some.injEq, Prod.mk.injEq] at h
          obtain ⟨rfl, rfl⟩ := h
          simpa using eq_append_of_isPrefixOf hp
      · obtain ⟨⟨a', b'⟩, hc, he⟩ := Option.map_eq_some_iff.mp h
        simp only [Prod.mk.injEq] at he
        obtain ⟨rfl, rfl⟩ := he
        simp [eq_of_cutFirst hc]

theorem eq_of_cutLast {sep : List Char} :
    ∀ {cs a b : List Char}, cutLast sep cs = some (a, b) → cs = a ++ sep ++ b
  | [], a, b, h => by
      cases sep <;> simp_all [cutLast]
  | c :: cs, a, b, h => by
      unfold cutLast at h
      split at h
      · next p hc =>
          simp only [Option.some.injEq, Prod.mk.injEq] at h
          obtain ⟨rfl, rfl⟩ := h
          simp [eq_of_cutLast hc]
      · split at h
        · next hp =>
            simp only [Option.some.injEq, Prod.mk.injEq] at h
            obtain ⟨rfl, rfl⟩ := h
            simpa using eq_append_of_isPrefixOf hp
        · simp at h

/-- The parts between the separators, the last part first.  Separators are
looked for from the end. -/
def partsFromEnd (sep cs : List Char) : List (List Char) :=
  match cutLast sep cs with
  | none => [cs]
  | some (a, b) => if a.length < cs.length then b :: partsFromEnd sep a else [cs]
termination_by cs.length

/-- Puts a character in the place of each pair of colons, from the left. -/
def replaceColons (c : Char) : List Char → List Char
  | ':' :: ':' :: rest => c :: replaceColons c rest
  | d :: rest => d :: replaceColons c rest
  | [] => []

/-- The characters that count as blank, as the Unicode property White_Space has them. -/
def isBlank (c : Char) : Bool :=
  let n := c.toNat
  (0x09 ≤ n && n ≤ 0x0D) || n = 0x20 || n = 0x85 || n = 0xA0 || n = 0x1680
    || (0x2000 ≤ n && n ≤ 0x200A) || n = 0x2028 || n = 0x2029 || n = 0x202F || n = 0x205F
    || n = 0x3000

/-- Drops blanks at both ends. -/
def trim (cs : List Char) : List Char :=
  ((cs.dropWhile isBlank).reverse.dropWhile isBlank).reverse

end ValueText.Split
