/-
  ValueText.StableSort — sorting that keeps the order of equals.

  An element is inserted behind every element that it does not precede, so
  elements that do not precede one another stay in their order.

  Main statement: `sort_perm` (nothing is lost or added).
-/

namespace ValueText.StableSort

variable {α : Type}

/-- Inserts an element in front of the first one that it precedes. -/
def insert (precedes : α → α → Bool) (a : α) : List α → List α
  | [] => [a]
  | b :: rest => if precedes a b then a :: b :: rest else b :: insert precedes a rest

/-- Sorts by insertion, from the first element on. -/
def sort (precedes : α → α → Bool) (as : List α) : List α :=
  as.foldl (fun sorted a => insert precedes a sorted) []

theorem insert_perm (precedes : α → α → Bool) (a : α) (bs : List α) :
    (insert precedes a bs).Perm (a :: bs) := by
  induction bs with
  | nil => exact List.Perm.refl _
  | cons b bs ih =>
      unfold insert
      split
      · exact List.Perm.refl _
      · exact (List.Perm.cons b ih).trans (List.Perm.swap a b bs)

theorem foldl_insert_perm (precedes : α → α → Bool) (as : List α) :
    ∀ sorted : List α,
      (as.foldl (fun sorted a => insert precedes a sorted) sorted).Perm (as ++ sorted) := by
  induction as with
  | nil => intro sorted; exact List.Perm.refl _
  | cons a as ih =>
      intro sorted
      refine (ih _).trans ?_
      exact (List.Perm.append_left as (insert_perm precedes a sorted)).trans List.perm_middle

theorem sort_perm (precedes : α → α → Bool) (as : List α) : (sort precedes as).Perm as := by
  simpa [sort] using foldl_insert_perm precedes as []

end ValueText.StableSort
