/-
  ValueText.Proofs.Text.Patterns — patterns over text.

  A pattern can match a text in several ways, and they are ranked:

      either p q      the ways of `p`, then those of `q`
      optional p      the ways of `p`, then nothing
      many c true     as many characters of the class as possible, then fewer
      many c false    as few as possible, then more
      both p q        the ways of `p`; for each of them in turn, those of `q`

  A search takes the first place in the text where there is a way, and there the first way.
  `ways` lists all of them, so a way that leads nowhere is passed over as if each were tried
  in turn.

  Main results:

    • `search_start`      a pattern that begins at the start is tried there only;
    • `ways_longest`      the longest run of a class decides, if nothing of the class can follow;
    • `findSome?_splits`  what is sought behind as few characters as possible stands behind a
                          first cut;
    • `ways_line`         the rest of a text is matched as a whole, or not at all.
-/
import ValueText.Text.Split

namespace ValueText

/-! ## §1. Patterns. -/

/-- A pattern over text. -/
inductive Pattern
  /-- The place in front of the text. -/
  | start
  /-- The place behind the text. -/
  | finish
  /-- These characters. -/
  | literal (cs : List Char)
  /-- Any number of characters of a class, as many or as few as possible. -/
  | many (allowed : Char → Bool) (longest : Bool)
  /-- One pattern, and another one behind it. -/
  | both (p q : Pattern)
  /-- One pattern, or else another one. -/
  | either (p q : Pattern)
  /-- A pattern, or else nothing. -/
  | optional (p : Pattern)
  /-- A pattern; what it matches is kept under a name. -/
  | group (name : String) (p : Pattern)

namespace Pattern

/-- A place in a text, and what was kept on the way there. -/
structure Place where
  before : List Char
  rest : List Char
  groups : List (String × List Char) := []

/-- What is kept under a name. -/
def Place.group? (s : Place) (name : String) : Option (List Char) := s.groups.lookup name

/-- The ways to take characters of a class, the longest one first. -/
def splits (allowed : Char → Bool) : List Char → List (List Char × List Char)
  | [] => [([], [])]
  | c :: cs =>
      (if allowed c then (splits allowed cs).map fun x => (c :: x.1, x.2) else [])
        ++ [([], c :: cs)]

/-- The places behind a match, in the order in which they are preferred. -/
def ways : Pattern → Place → List Place
  | start, s => if s.before = [] then [s] else []
  | finish, s => if s.rest = [] then [s] else []
  | literal cs, s =>
      if cs.isPrefixOf s.rest then [⟨s.before ++ cs, s.rest.drop cs.length, s.groups⟩] else []
  | many allowed longest, s =>
      (if longest then splits allowed s.rest else (splits allowed s.rest).reverse).map
        fun x => ⟨s.before ++ x.1, x.2, s.groups⟩
  | both p q, s => (p.ways s).flatMap q.ways
  | either p q, s => p.ways s ++ q.ways s
  | optional p, s => p.ways s ++ [s]
  | group name p, s =>
      (p.ways s).map fun s' =>
        { s' with groups := (name, s'.before.drop s.before.length) :: s'.groups }

/-- The place behind the first match in a text. -/
def search (p : Pattern) (text : List Char) : Option Place := go [] text
where
  go (before : List Char) : List Char → Option Place
    | [] => (p.ways ⟨before, [], []⟩).head?
    | c :: cs => (p.ways ⟨before, c :: cs, []⟩).head?.or (go (before ++ [c]) cs)

/-! ## §2. What patterns have in common. -/

theorem search_start (p : Pattern) (text : List Char) :
    (both start p).search text = (p.ways ⟨[], text, []⟩).head? := by
  have hlater (cs : List Char) : ∀ {before : List Char}, before ≠ [] →
      search.go (both start p) before cs = none := by
    induction cs with
    | nil => intro before h; simp [search.go, ways, h]
    | cons c cs ih => intro before h; simp [search.go, ways, h, ih]
  cases text with
  | nil => simp [search, search.go, ways]
  | cons c cs => simp [search, search.go, ways, hlater]

theorem ways_literal_append (cs ds : List Char) (p : Pattern) :
    (both (literal cs) (both (literal ds) p)).ways = (both (literal (cs ++ ds)) p).ways := by
  funext s
  simp only [ways, List.isPrefixOf_iff_prefix]
  by_cases hcs : cs <+: s.rest
  · obtain ⟨t, ht⟩ := hcs
    simp [← ht, List.append_assoc, List.prefix_append_right_inj]
  · have hboth : ¬ cs ++ ds <+: s.rest := fun h => hcs ((List.prefix_append cs ds).trans h)
    simp [hcs, hboth]

/-! ## §3. Runs of characters. -/

/-- What is kept of a run of characters is the run. -/
theorem ways_group_many (name : String) (allowed : Char → Bool) (longest : Bool) (s : Place) :
    (group name (many allowed longest)).ways s =
      (if longest then splits allowed s.rest else (splits allowed s.rest).reverse).map
        fun x => ⟨s.before ++ x.1, x.2, (name, x.1) :: s.groups⟩ := by
  simp [ways]

/-- If no way leads on from in front of a character of the class, the longest run decides. -/
theorem flatMap_splits {α : Type} {allowed : Char → Bool} {g : List Char × List Char → List α}
    (h : ∀ t c cs, allowed c = true → g (t, c :: cs) = []) (cs : List Char) :
    (splits allowed cs).flatMap g = g (cs.takeWhile allowed, cs.dropWhile allowed) := by
  induction cs generalizing g with
  | nil => simp [splits]
  | cons c cs ih =>
      rw [splits, List.flatMap_append]
      by_cases hc : allowed c = true
      · have hrun := ih (g := fun x => g (c :: x.1, x.2)) fun t d ds hd => h (c :: t) d ds hd
        simp only [hc, if_true, List.flatMap_map, hrun, List.flatMap_singleton, h [] c cs hc,
          List.append_nil, List.takeWhile_cons, List.dropWhile_cons]
      · simp [hc]

/-- **The longest run decides**, if what follows cannot begin with a character of the class. -/
theorem ways_longest {allowed : Char → Bool} {p : Pattern} (name : String)
    (h : ∀ (s : Place) c cs, s.rest = c :: cs → allowed c = true → p.ways s = []) (s : Place) :
    (both (group name (many allowed true)) p).ways s =
      p.ways ⟨s.before ++ s.rest.takeWhile allowed, s.rest.dropWhile allowed,
        (name, s.rest.takeWhile allowed) :: s.groups⟩ := by
  rw [ways, ways_group_many, if_pos rfl, List.flatMap_map]
  exact flatMap_splits (fun t c cs hc => h _ c cs rfl hc) s.rest

/-- The shortest run with which `p` matches is preferred. -/
theorem head?_shortest (name : String) (allowed : Char → Bool) (p : Pattern) (s : Place) :
    ((both (group name (many allowed false)) p).ways s).head? =
      (splits allowed s.rest).reverse.findSome? fun x =>
        (p.ways ⟨s.before ++ x.1, x.2, (name, x.1) :: s.groups⟩).head? := by
  rw [ways, ways_group_many, if_neg Bool.false_ne_true, List.flatMap_map, List.head?_flatMap]

/-- **Looking for a separator behind as few characters as possible cuts at its first place**, if
the whole text is of the class. -/
theorem findSome?_splits {α : Type} (allowed : Char → Bool) (sep : List Char)
    (k : List Char → α) (cs : List Char) :
    ((splits allowed cs).reverse.findSome? fun x =>
        if sep.isPrefixOf x.2 && x.2.all allowed then some (k x.1) else none) =
      if cs.all allowed then (Split.cutFirst sep cs).map fun p => k p.1 else none := by
  -- Induction on the text.  A character that is not of the class stays in what follows.
  induction cs generalizing k with
  | nil => cases sep <;> simp [splits, Split.cutFirst]
  | cons c cs ih =>
      rw [splits, List.reverse_append, List.findSome?_append]
      by_cases hc : allowed c = true
      · have hrest : (((splits allowed cs).map fun x => (c :: x.1, x.2)).reverse.findSome? fun x =>
            if sep.isPrefixOf x.2 && x.2.all allowed then some (k x.1) else none) =
            if cs.all allowed then (Split.cutFirst sep cs).map fun p => k (c :: p.1) else none := by
          rw [← List.map_reverse, List.findSome?_map]
          exact ih fun t => k (c :: t)
        rw [if_pos hc, hrest, Split.cutFirst, List.reverse_singleton, List.findSome?_singleton]
        simp only [List.all_cons, hc, Bool.true_and]
        cases cs.all allowed <;> cases sep.isPrefixOf (c :: cs)
        case true.false => simp [Function.comp_def]
        all_goals rfl
      · simp [hc]

theorem filter_splits (allowed : Char → Bool) (cs : List Char) :
    (splits allowed cs).filter (fun x => x.2.isEmpty) =
      if cs.all allowed then [(cs, [])] else [] := by
  induction cs with
  | nil => rfl
  | cons c cs ih =>
      by_cases hc : allowed c = true
      · rw [splits, List.filter_append, if_pos hc, List.filter_map]
        simp only [Function.comp_def, ih]
        cases hall : cs.all allowed <;> simp [hc, hall]
      · simp [splits, hc]

/-- **The rest of a text is matched as a whole, or not at all.** -/
theorem ways_line (allowed : Char → Bool) (s : Place) :
    (both (many allowed true) finish).ways s =
      if s.rest.all allowed then [⟨s.before ++ s.rest, [], s.groups⟩] else [] := by
  have hlast (xs : List (List Char × List Char)) :
      (xs.map fun x => (⟨s.before ++ x.1, x.2, s.groups⟩ : Place)).flatMap finish.ways =
        (xs.filter fun x => x.2.isEmpty).map fun x => ⟨s.before ++ x.1, x.2, s.groups⟩ := by
    induction xs with
    | nil => rfl
    | cons x xs ih => cases hx : x.2 <;> simp_all [ways]
  simp only [ways, if_true] at hlast ⊢
  rw [hlast, filter_splits]
  split <;> rfl

end Pattern

end ValueText
