/-
  ValueText.Proofs.Sorting — sorting by number.

  A sorted list is in ascending order of the numbers, and keeps the order of what has
  the same number.  It is determined by that: `eq_of_classes`.

  Main results:

    • `ofNumber_sort`  sorting keeps the order of equal numbers;
    • `eq_of_classes`  a list in ascending order is determined by what it has of each
                       number;
    • `sort_filter`    what is left out before sorting may be left out after it;
    • `sort_replaced`  what gets a new greatest number moves to the end;
    • `sort_exchange`  exchanging two neighbouring numbers exchanges what has them;
    • `sort_map`       what keeps the order may be done before sorting or after it.
-/
import ValueText.StableSort

namespace ValueText

namespace StableSort

variable {α : Type} {number : α → Nat}

/-- A list in ascending order of numbers. -/
def Ascending (number : α → Nat) (as : List α) : Prop :=
  as.Pairwise fun a b => number a ≤ number b

/-- The elements of one number. -/
def ofNumber (number : α → Nat) (n : Nat) (as : List α) : List α :=
  as.filter fun a => number a = n

theorem mem_insert {precedes : α → α → Bool} {a x : α} {bs : List α} :
    x ∈ insert precedes a bs ↔ x = a ∨ x ∈ bs := by
  rw [(insert_perm precedes a bs).mem_iff, List.mem_cons]

theorem ascending_insert (a : α) : ∀ {bs : List α}, Ascending number bs →
    Ascending number (insert (fun a b => number a < number b) a bs) := by
  intro bs
  induction bs with
  | nil => intro _; exact List.pairwise_singleton _ _
  | cons b bs ih =>
      intro h
      obtain ⟨hb, hbs⟩ := List.pairwise_cons.mp h
      unfold insert
      split
      · next hlt =>
          have hlt := of_decide_eq_true hlt
          refine List.pairwise_cons.mpr ⟨fun x hx => ?_, h⟩
          rcases List.mem_cons.mp hx with rfl | hx
          · omega
          · have := hb x hx
            omega
      · next hge =>
          have hge : ¬ number a < number b := fun hlt => hge (decide_eq_true hlt)
          refine List.pairwise_cons.mpr ⟨fun x hx => ?_, ih hbs⟩
          rcases mem_insert.mp hx with rfl | hx
          · omega
          · exact hb x hx

/-- An element comes behind the others of its number. -/
theorem ofNumber_insert (a : α) (n : Nat) : ∀ {bs : List α}, Ascending number bs →
    ofNumber number n (insert (fun a b => number a < number b) a bs) =
      ofNumber number n bs ++ ofNumber number n [a] := by
  intro bs
  induction bs with
  | nil => intro _; rfl
  | cons b bs ih =>
      intro h
      obtain ⟨hb, hbs⟩ := List.pairwise_cons.mp h
      unfold insert
      split
      · next hlt =>
          have hlt := of_decide_eq_true hlt
          by_cases hn : number a = n
          · -- Everything behind the place has a greater number.
            have hrest : ofNumber number n (b :: bs) = [] := by
              apply List.filter_eq_nil_iff.mpr
              intro x hx hxn
              have hxn := of_decide_eq_true hxn
              rcases List.mem_cons.mp hx with rfl | hx
              · omega
              · have := hb x hx
                omega
            have hself : ofNumber number n [a] = [a] := by simp [ofNumber, hn]
            rw [hrest, List.nil_append, hself, ofNumber, List.filter_cons, ← ofNumber, hrest,
              if_pos (decide_eq_true hn)]
          · have hempty : ofNumber number n [a] = [] := by simp [ofNumber, hn]
            rw [hempty, List.append_nil, ofNumber, List.filter_cons, if_neg (by simpa using hn)]
            rfl
      · have ih := ih hbs
        simp only [ofNumber, List.filter_cons] at ih ⊢
        split
        · rw [ih]
          rfl
        · exact ih

theorem sort_spec (as : List α) : ∀ {sorted : List α}, Ascending number sorted →
    Ascending number (as.foldl (fun s a => insert (fun a b => number a < number b) a s) sorted) ∧
      ∀ n, ofNumber number n
          (as.foldl (fun s a => insert (fun a b => number a < number b) a s) sorted) =
        ofNumber number n sorted ++ ofNumber number n as := by
  induction as with
  | nil => intro sorted h; exact ⟨h, fun n => (List.append_nil _).symm⟩
  | cons a as ih =>
      intro sorted h
      obtain ⟨hasc, hof⟩ := ih (ascending_insert a h)
      refine ⟨hasc, fun n => ?_⟩
      rw [List.foldl_cons, hof, ofNumber_insert a n h, List.append_assoc]
      congr 1
      simp only [ofNumber, List.filter_cons, List.filter_nil]
      split <;> rfl

theorem ascending_sort (as : List α) :
    Ascending number (sort (fun a b => number a < number b) as) :=
  (sort_spec as List.Pairwise.nil).1

/-- **Sorting keeps the order of equal numbers.** -/
theorem ofNumber_sort (as : List α) (n : Nat) :
    ofNumber number n (sort (fun a b => number a < number b) as) = ofNumber number n as :=
  (sort_spec as List.Pairwise.nil).2 n

/-- **A list in ascending order is determined by what it has of each number.** -/
theorem eq_of_classes : ∀ {as bs : List α}, Ascending number as → Ascending number bs →
    (∀ n, ofNumber number n as = ofNumber number n bs) → as = bs := by
  intro as
  induction as with
  | nil =>
      intro bs _ _ h
      cases bs with
      | nil => rfl
      | cons b bs =>
          have hb := h (number b)
          simp [ofNumber] at hb
  | cons a as ih =>
      intro bs has hbs h
      cases bs with
      | nil =>
          have ha := h (number a)
          simp [ofNumber] at ha
      | cons b bs =>
          -- The first elements have the least number, which is the same.
          have hmem {x : α} {xs ys : List α} (hx : x ∈ xs)
              (he : ofNumber number (number x) xs = ofNumber number (number x) ys) : x ∈ ys := by
            have hx' : x ∈ ofNumber number (number x) xs :=
              List.mem_filter.mpr ⟨hx, decide_eq_true rfl⟩
            rw [he] at hx'
            exact (List.mem_filter.mp hx').1
          have hle {x y : α} {ys : List α} (hys : Ascending number (y :: ys)) (hx : x ∈ y :: ys) :
              number y ≤ number x := by
            rcases List.mem_cons.mp hx with rfl | hx
            · exact Nat.le_refl _
            · exact (List.pairwise_cons.mp hys).1 x hx
          have hba := hle hbs (hmem List.mem_cons_self (h (number a)))
          have hab := hle has (hmem List.mem_cons_self (h (number b)).symm)
          have hnum : number b = number a := Nat.le_antisymm hba hab
          have hhead := h (number a)
          simp only [ofNumber, List.filter_cons, hnum, decide_true, if_true] at hhead
          injection hhead with hhead _
          subst hhead
          refine congrArg (a :: ·) (ih (List.pairwise_cons.mp has).2 (List.pairwise_cons.mp hbs).2 ?_)
          intro n
          have hn := h n
          simp only [ofNumber, List.filter_cons] at hn ⊢
          split at hn
          · injection hn
          · exact hn

/-- In ascending order the elements of one number stand together. -/
theorem Ascending.split (n : Nat) : ∀ {as : List α}, Ascending number as →
    as = as.filter (fun a => number a < n) ++ ofNumber number n as ++
      as.filter (fun a => n < number a) := by
  intro as
  induction as with
  | nil => intro _; rfl
  | cons a as ih =>
      intro h
      obtain ⟨ha, has⟩ := List.pairwise_cons.mp h
      have hsplit := ih has
      have hless (hge : n ≤ number a) : as.filter (fun b => number b < n) = [] := by
        apply List.filter_eq_nil_iff.mpr
        intro b hb hlt
        have hlt := of_decide_eq_true hlt
        have := ha b hb
        omega
      simp only [ofNumber, List.filter_cons] at hsplit ⊢
      rcases Nat.lt_trichotomy (number a) n with hlt | heq | hgt
      · rw [if_pos (decide_eq_true hlt), if_neg (by simpa using (by omega : ¬ number a = n)),
          if_neg (by simpa using (by omega : ¬ n < number a))]
        exact congrArg (a :: ·) hsplit
      · rw [if_neg (by simpa using (by omega : ¬ number a < n)), if_pos (decide_eq_true heq),
          if_neg (by simpa using (by omega : ¬ n < number a))]
        rw [hless (by omega)] at hsplit ⊢
        exact congrArg (a :: ·) hsplit
      · -- Nothing behind a greater number is of the number `n`.
        have hequal : as.filter (fun b => number b = n) = [] := by
          apply List.filter_eq_nil_iff.mpr
          intro b hb heq
          have heq := of_decide_eq_true heq
          have := ha b hb
          omega
        rw [if_neg (by simpa using (by omega : ¬ number a < n)),
          if_neg (by simpa using (by omega : ¬ number a = n)), if_pos (decide_eq_true hgt)]
        rw [hless (by omega), hequal] at hsplit ⊢
        exact congrArg (a :: ·) hsplit

theorem ofNumber_append (n : Nat) (as bs : List α) :
    ofNumber number n (as ++ bs) = ofNumber number n as ++ ofNumber number n bs :=
  List.filter_append as bs

theorem ofNumber_filter (n : Nat) (p : α → Bool) (as : List α) :
    ofNumber number n (as.filter p) = (ofNumber number n as).filter p := by
  unfold ofNumber
  rw [List.filter_filter, List.filter_filter]
  exact List.filter_congr fun a _ => Bool.and_comm _ _

/-- What is left out before sorting may be left out afterwards. -/
theorem sort_filter (p : α → Bool) (as : List α) :
    sort (fun a b => number a < number b) (as.filter p) =
      (sort (fun a b => number a < number b) as).filter p := by
  refine eq_of_classes (ascending_sort _) ((ascending_sort as).sublist List.filter_sublist) fun n => ?_
  rw [ofNumber_sort, ofNumber_filter, ofNumber_filter, ofNumber_sort]

/-- **What gets a new greatest number moves to the end.** -/
theorem sort_replaced {as bs : List α} {p : α → Prop} [DecidablePred p] {n : Nat}
    (hothers : bs.filter (fun b => ¬ p b) = as.filter fun a => ¬ p a)
    (hlast : ∀ a ∈ as, number a < n) (hp : ∀ b ∈ bs, number b = n ↔ p b) :
    sort (fun a b => number a < number b) bs =
      (sort (fun a b => number a < number b) as).filter (fun a => ¬ p a) ++ bs.filter p := by
  have hnumber : ∀ b ∈ bs.filter p, number b = n := by
    intro b hb
    obtain ⟨hb, hpb⟩ := List.mem_filter.mp hb
    exact (hp b hb).mpr (of_decide_eq_true hpb)
  -- Both sides are in ascending order, so it is enough to compare what they have of each number.
  refine eq_of_classes (ascending_sort bs) ?_ fun m => ?_
  · refine List.pairwise_append.mpr
      ⟨(ascending_sort as).sublist List.filter_sublist, ?_, fun a ha b hb => ?_⟩
    · refine List.Pairwise.imp_of_mem (fun {a b} ha hb _ => ?_)
        (List.pairwise_of_forall fun _ _ => trivial : (bs.filter p).Pairwise fun _ _ => True)
      exact Nat.le_of_eq ((hnumber a ha).trans (hnumber b hb).symm)
    · have ha := (List.mem_filter.mp ha).1
      rw [(sort_perm _ as).mem_iff] at ha
      have := hlast a ha
      rw [hnumber b hb]
      omega
  · -- Both parts are taken from `bs`.
    rw [ofNumber_sort, ofNumber_append, ofNumber_filter, ofNumber_sort, ← ofNumber_filter, ← hothers,
      ofNumber_filter, ofNumber_filter]
    by_cases hm : m = n
    · -- Of the new number there is what is replaced, and nothing else.
      have hall : ∀ b ∈ ofNumber number m bs, p b := by
        intro b hb
        obtain ⟨hb, hbm⟩ := List.mem_filter.mp hb
        exact (hp b hb).mp (by rw [of_decide_eq_true hbm, hm])
      have hnone : (ofNumber number m bs).filter (fun b => ¬ p b) = [] :=
        List.filter_eq_nil_iff.mpr fun b hb => by simpa using hall b hb
      rw [hnone, List.nil_append]
      exact (List.filter_eq_self.mpr fun b hb => decide_eq_true (hall b hb)).symm
    · have hall : ∀ b ∈ ofNumber number m bs, ¬ p b := by
        intro b hb hpb
        obtain ⟨hb, hbm⟩ := List.mem_filter.mp hb
        exact hm ((of_decide_eq_true hbm).symm.trans ((hp b hb).mpr hpb))
      have hnone : (ofNumber number m bs).filter p = [] :=
        List.filter_eq_nil_iff.mpr fun b hb => by simpa using hall b hb
      rw [hnone, List.append_nil]
      exact (List.filter_eq_self.mpr fun b hb => decide_eq_true (hall b hb)).symm

/-- The numbers `n` and `n + 1` in each other's place. -/
def exchange (n m : Nat) : Nat := if m = n then n + 1 else if m = n + 1 then n else m

theorem exchange_left (n : Nat) : exchange n n = n + 1 := if_pos rfl

theorem exchange_right (n : Nat) : exchange n (n + 1) = n := by
  rw [exchange, if_neg (by omega), if_pos rfl]

theorem exchange_of_ne {n m : Nat} (h : m ≠ n) (h' : m ≠ n + 1) : exchange n m = m := by
  rw [exchange, if_neg h, if_neg h']

theorem exchange_of_lt {n m : Nat} (h : m < n) : exchange n m = m :=
  exchange_of_ne (by omega) (by omega)

theorem exchange_of_gt {n m : Nat} (h : n + 1 < m) : exchange n m = m :=
  exchange_of_ne (by omega) (by omega)

theorem exchange_eq_iff {n m k : Nat} : exchange n m = k ↔ m = exchange n k := by
  unfold exchange
  grind

/-- The parts of a list in ascending order around the numbers `n` and `n + 1`. -/
structure Around (number : α → Nat) (n : Nat) (before xs ys after : List α) : Prop where
  less : ∀ a ∈ before, number a < n
  first : ∀ x ∈ xs, number x = n
  second : ∀ y ∈ ys, number y = n + 1
  greater : ∀ a ∈ after, n + 1 < number a

theorem Ascending.around (n : Nat) {as : List α} (h : Ascending number as) :
    ∃ before xs ys after, as = before ++ xs ++ ys ++ after ∧
      Around number n before xs ys after := by
  have hlater : Ascending number (as.filter fun a => n < number a) :=
    List.Pairwise.sublist List.filter_sublist h
  have hrest := hlater.split (n + 1)
  have hnone : (as.filter fun a => n < number a).filter (fun a => number a < n + 1) = [] := by
    rw [List.filter_eq_nil_iff]
    intro a ha
    have ha := of_decide_eq_true (List.mem_filter.mp ha).2
    rw [decide_eq_true_eq]
    omega
  rw [hnone, List.nil_append] at hrest
  refine ⟨as.filter fun a => number a < n, ofNumber number n as,
    ofNumber number (n + 1) (as.filter fun a => n < number a),
    (as.filter fun a => n < number a).filter fun a => n + 1 < number a, ?_,
    fun a ha => of_decide_eq_true (List.mem_filter.mp ha).2,
    fun x hx => of_decide_eq_true (List.mem_filter.mp hx).2,
    fun y hy => of_decide_eq_true (List.mem_filter.mp hy).2,
    fun a ha => of_decide_eq_true (List.mem_filter.mp ha).2⟩
  rw [List.append_assoc, ← hrest]
  exact h.split n

namespace Around

variable {n : Nat} {before xs ys after : List α}

/-- What has the two numbers changes places, and then the list is in ascending order of the
exchanged numbers. -/
theorem ascending (h : Around number n before xs ys after)
    (hasc : Ascending number (before ++ xs ++ ys ++ after)) :
    Ascending (fun a => exchange n (number a)) (before ++ ys ++ xs ++ after) := by
  have hless {a : α} (ha : a ∈ before) : exchange n (number a) = number a :=
    exchange_of_lt (h.less a ha)
  have hfirst {a : α} (ha : a ∈ xs) : exchange n (number a) = n + 1 := by
    rw [h.first a ha, exchange_left]
  have hsecond {a : α} (ha : a ∈ ys) : exchange n (number a) = n := by
    rw [h.second a ha, exchange_right]
  have hgreater {a : α} (ha : a ∈ after) : exchange n (number a) = number a :=
    exchange_of_gt (h.greater a ha)
  have hkept {l : List α} (hl : l.Sublist (before ++ xs ++ ys ++ after))
      (hsame : ∀ {a}, a ∈ l → exchange n (number a) = number a) :
      Ascending (fun a => exchange n (number a)) l :=
    (List.Pairwise.sublist hl hasc).imp_of_mem fun {a b} ha hb hab => by
      show exchange n (number a) ≤ exchange n (number b)
      rwa [hsame ha, hsame hb]
  have hequal {l : List α} {k : Nat} (hsame : ∀ {a}, a ∈ l → exchange n (number a) = k) :
      Ascending (fun a => exchange n (number a)) l :=
    List.pairwise_of_forall_mem_list fun a ha b hb => Nat.le_of_eq ((hsame ha).trans (hsame hb).symm)
  -- The numbers of each part against those of the next ones.
  have hold : ∀ a ∈ before ++ ys, exchange n (number a) ≤ n := by
    intro a ha
    rcases List.mem_append.mp ha with ha | ha
    · rw [hless ha]
      exact Nat.le_of_lt (h.less a ha)
    · exact Nat.le_of_eq (hsecond ha)
  have hnew : ∀ a ∈ before ++ ys ++ xs, exchange n (number a) ≤ n + 1 := by
    intro a ha
    rcases List.mem_append.mp ha with ha | ha
    · exact Nat.le_succ_of_le (hold a ha)
    · exact Nat.le_of_eq (hfirst ha)
  refine List.pairwise_append.mpr ⟨List.pairwise_append.mpr ⟨List.pairwise_append.mpr
    ⟨hkept (by simp) hless, hequal hsecond, fun a ha b hb => ?_⟩, hequal hfirst,
      fun a ha b hb => ?_⟩, hkept (List.sublist_append_right _ _) hgreater, fun a ha b hb => ?_⟩
  all_goals show exchange n (number a) ≤ exchange n (number b)
  · rw [hsecond hb]
    exact hold a (List.mem_append_left _ ha)
  · rw [hfirst hb]
    exact Nat.le_succ_of_le (hold a ha)
  · rw [hgreater hb]
    exact Nat.le_of_lt (Nat.lt_of_le_of_lt (hnew a ha) (h.greater b hb))

/-- No number is both of the two. -/
theorem ofNumber_comm (h : Around number n before xs ys after) (m : Nat) :
    ofNumber number m (before ++ xs ++ ys ++ after) =
      ofNumber number m (before ++ ys ++ xs ++ after) := by
  have hnone {l : List α} {k : Nat} (hl : ∀ a ∈ l, number a = k) (hk : m ≠ k) :
      ofNumber number m l = [] := by
    rw [ofNumber, List.filter_eq_nil_iff]
    intro a ha he
    exact hk ((of_decide_eq_true he).symm.trans (hl a ha))
  simp only [ofNumber_append]
  by_cases hm : m = n
  · rw [hnone h.second (by omega), List.append_nil, List.append_nil]
  · rw [hnone h.first hm, List.append_nil, List.append_nil]

end Around

/-- **Exchanging two neighbouring numbers exchanges what has them.** -/
theorem sort_exchange (n : Nat) (as : List α) : ∃ before xs ys after,
    sort (fun a b => number a < number b) as = before ++ xs ++ ys ++ after ∧
    sort (fun a b => exchange n (number a) < exchange n (number b)) as =
      before ++ ys ++ xs ++ after ∧ Around number n before xs ys after := by
  have hasc : Ascending number (sort (fun a b => number a < number b) as) := ascending_sort as
  have hclasses (m : Nat) : ofNumber number m (sort (fun a b => number a < number b) as) =
      ofNumber number m as := ofNumber_sort as m
  obtain ⟨before, xs, ys, after, hsplit, haround⟩ := hasc.around n
  refine ⟨before, xs, ys, after, hsplit, ?_, haround⟩
  rw [hsplit] at hasc hclasses
  have hnumber (m : Nat) (l : List α) : ofNumber (fun a => exchange n (number a)) m l =
      ofNumber number (exchange n m) l := by
    simp only [ofNumber, exchange_eq_iff]
  refine eq_of_classes ?_ (haround.ascending hasc) fun m => ?_
  · exact ascending_sort as
  · rw [ofNumber_sort, hnumber, hnumber, ← hclasses, haround.ofNumber_comm]

section Map

variable {β : Type} {p : α → α → Bool} {q : β → β → Bool} {change : α → β}

theorem insert_map (h : ∀ a b, q (change a) (change b) = p a b) (a : α) (bs : List α) :
    insert q (change a) (bs.map change) = (insert p a bs).map change := by
  induction bs with
  | nil => rfl
  | cons b bs ih =>
      simp only [List.map_cons, insert, h]
      split
      · rfl
      · rw [ih, List.map_cons]

/-- **What keeps the order may be done before sorting or after it.** -/
theorem sort_map (h : ∀ a b, q (change a) (change b) = p a b) (as : List α) :
    sort q (as.map change) = (sort p as).map change := by
  have hfold : ∀ sorted : List α,
      (as.map change).foldl (fun s b => insert q b s) (sorted.map change) =
        (as.foldl (fun s a => insert p a s) sorted).map change := by
    induction as with
    | nil => exact fun sorted => rfl
    | cons a as ih =>
        intro sorted
        rw [List.map_cons, List.foldl_cons, List.foldl_cons, insert_map h, ih]
  exact hfold []

end Map

end StableSort

end ValueText
