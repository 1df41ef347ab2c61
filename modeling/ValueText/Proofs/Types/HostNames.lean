/-
  ValueText.Proofs.Types.HostNames — taking the names of host types apart.

  The host spells a type as segments with two colons between them, generic arguments in angle
  brackets, and further interfaces as bounds behind plus signs; the word `dyn` before it makes
  it an interface.  Arguments and bounds are such names again, nested to any depth.

      text gap n    the spelling of `n`, with `gap` blanks behind each comma
      parts gap n   what the parts of `n` are
      HasBounds n   a bound stands behind `n`, or inside its brackets at any depth
      Splits n      an interface has no bounds inside its brackets, any other name none behind it

  Taking a name apart looks for the first bound, the first bracket and the last pair of colons
  before it.  The bracket and the colons are always those of the name itself.  The bound may be
  one of an argument, and then the name ends inside the brackets.

  Main results:

    • `balanced_text`  brackets are balanced in every spelling;
    • `exists_cut`     before the first bound inside brackets, one bracket more was opened than
                       closed;
    • `split_text`     a name is taken apart into its parts exactly if `Splits` says so, and an
                       interface for which it does not loses a part of its arguments.
-/
import Mathlib.Data.List.Basic
import Mathlib.Data.List.Count
import ValueText.Types.Host

namespace ValueText

/-! ## §1. Names of types. -/

/-- Whether a character separates words. -/
def separates (c : Char) : Bool := [':', '<', '>', ',', '+'].contains c || Split.isBlank c

/-- A word that stands between separators. -/
structure Identifier where
  chars : List Char
  nonempty : chars ≠ []
  unseparated : chars.any separates = false

theorem Identifier.plain (i : Identifier) (c : Char) (h : c ∈ i.chars) :
    c ∉ [':', '<', '>', ',', '+'] ∧ Split.isBlank c = false := by
  have hc := List.any_eq_false.mp i.unseparated c h
  rw [separates, Bool.or_eq_true, not_or] at hc
  exact ⟨fun hmem => hc.1 (List.contains_iff_mem.mpr hmem), Bool.eq_false_iff.mpr hc.2⟩

/-- The name of a type of the host. -/
structure TypeName where
  isDyn : Bool
  /-- The segments before the last one. -/
  outer : List Identifier
  last : Identifier
  arguments : List TypeName
  bounds : List TypeName

namespace TypeName

/-- What separates a bound from what stands before it. -/
def plus : List Char := [' ', '+', ' ']

/-- Segments with two colons between them. -/
def pathText (outer : List Identifier) (last : Identifier) : List Char :=
  match outer with
  | [] => last.chars
  | i :: outer => i.chars ++ ':' :: ':' :: pathText outer last

/-- Arguments in angle brackets, if there are any; `gap` blanks stand behind each comma. -/
def angled (gap : Nat) : List (List Char) → List Char
  | [] => []
  | t :: ts => '<' :: (',' :: List.replicate gap ' ').intercalate (t :: ts) ++ ['>']

mutual

/-- The spelling of a name. -/
def text (gap : Nat) : TypeName → List Char
  | ⟨isDyn, outer, last, arguments, bounds⟩ =>
      (if isDyn then ['d', 'y', 'n', ' '] else []) ++
        (pathText outer last ++ angled gap (texts gap arguments) ++
          (texts gap bounds).flatMap (plus ++ ·))

/-- The spellings of several names. -/
def texts (gap : Nat) : List TypeName → List (List Char)
  | [] => []
  | n :: ns => text gap n :: texts gap ns

end

/-- The segments before the last one, joined by dots. -/
def space : List Identifier → Option (List Char)
  | [] => none
  | i :: outer => some (['.'].intercalate (i.chars :: outer.map (·.chars)))

/-- The parts of a name. -/
def parts (gap : Nat) (n : TypeName) : TypePath :=
  ⟨(space n.outer).map String.ofList,
    String.ofList (n.last.chars ++ angled gap (texts gap n.arguments)), n.isDyn⟩

/-- A bound stands behind the name, or behind a name inside its brackets. -/
inductive HasBounds : TypeName → Prop
  | behind {n : TypeName} : n.bounds ≠ [] → HasBounds n
  | inside {n a : TypeName} : a ∈ n.arguments → HasBounds a → HasBounds n

/-- The names that are taken apart into their parts. -/
def Splits (n : TypeName) : Prop :=
  if n.isDyn then ∀ a ∈ n.arguments, ¬ HasBounds a else n.bounds = []

/-- Each bracket that is opened is closed, in the right order. -/
inductive Balanced : List Char → Prop
  | nil : Balanced []
  | char {c : Char} {cs : List Char} : c ≠ '<' → c ≠ '>' → Balanced cs → Balanced (c :: cs)
  | nest {cs ds : List Char} : Balanced cs → Balanced ds → Balanced ('<' :: cs ++ '>' :: ds)

/-- Induction over a name, its arguments and its bounds. -/
theorem induct {P : TypeName → Prop}
    (h : ∀ n : TypeName, (∀ a ∈ n.arguments, P a) → (∀ b ∈ n.bounds, P b) → P n) :
    ∀ n, P n
  | ⟨isDyn, outer, last, arguments, bounds⟩ =>
      h _ (fun a _ => induct h a) (fun b _ => induct h b)

theorem texts_eq_map (gap : Nat) (ns : List TypeName) : texts gap ns = ns.map (text gap) := by
  induction ns with
  | nil => rfl
  | cons n ns ih => rw [texts, ih, List.map_cons]

/-! ## §2. Cuts. -/

theorem cutFirst_cons {sep : List Char} {c : Char} {cs : List Char} (h : ¬ sep <+: c :: cs) :
    Split.cutFirst sep (c :: cs) = (Split.cutFirst sep cs).map fun p => (c :: p.1, p.2) := by
  rw [Split.cutFirst, if_neg (by rwa [List.isPrefixOf_iff_prefix])]

/-- A plus sign is the second character of its separator. -/
theorem not_starts_plus {c : Char} {cs : List Char} (h : cs.head? ≠ some '+') :
    ¬ plus <+: c :: cs := by
  rintro ⟨t, ht⟩
  rw [(List.cons.inj ht).2.symm] at h
  exact h rfl

theorem head?_ne_of_not_mem {c : Char} {cs : List Char} (h : c ∉ cs) : cs.head? ≠ some c :=
  fun hc => h (List.mem_of_mem_head? hc)

theorem cutFirst_eq_none {cs : List Char} (h : '+' ∉ cs) : Split.cutFirst plus cs = none := by
  induction cs with
  | nil => rfl
  | cons c cs ih =>
      rw [List.mem_cons, not_or] at h
      rw [cutFirst_cons (not_starts_plus (head?_ne_of_not_mem h.2)), ih h.2, Option.map_none]

theorem cutFirst_append {u : List Char} (h : '+' ∉ u) (v : List Char) :
    Split.cutFirst plus (u ++ plus ++ v) = some (u, v) := by
  induction u with
  | nil => rfl
  | cons c u ih =>
      rw [List.mem_cons, not_or] at h
      have hhead : (u ++ plus ++ v).head? ≠ some '+' := by
        cases u with
        | nil => simp [plus]
        | cons d u => simpa using (head?_ne_of_not_mem h.2)
      rw [List.cons_append, List.cons_append, cutFirst_cons (not_starts_plus hhead), ih h.2,
        Option.map_some]

/-- What stands before the first bound is kept. -/
theorem dropBounds_eq {u w : List Char} (h : '+' ∉ u) (hw : w = [] ∨ plus <+: w) :
    TypePath.dropBounds (u ++ w) = u := by
  rw [TypePath.dropBounds]
  rcases hw with rfl | ⟨v, rfl⟩
  · rw [List.append_nil]
    simp only [cutFirst_eq_none h, ← plus.eq_1]
  · rw [← List.append_assoc, ← plus.eq_1]
    simp only [cutFirst_append h]

theorem cutLast_eq_none {cs : List Char} (h : ':' ∉ cs) :
    Split.cutLast [':', ':'] cs = none := by
  induction cs with
  | nil => rfl
  | cons c cs ih =>
      rw [List.mem_cons, not_or] at h
      have hhere : ¬ [':', ':'] <+: c :: cs := by
        rintro ⟨t, ht⟩
        exact h.1 (List.cons.inj ht).1
      rw [Split.cutLast, ih h.2, if_neg (by rwa [List.isPrefixOf_iff_prefix])]

theorem cutLast_append (u : List Char) {v : List Char} (h : ':' ∉ v) :
    Split.cutLast [':', ':'] (u ++ ':' :: ':' :: v) = some (u, v) := by
  induction u with
  | nil =>
      have hhere : ¬ [':', ':'] <+: ':' :: v := by
        rintro ⟨t, ht⟩
        exact h ((List.cons.inj ht).2 ▸ List.mem_cons_self)
      have hnext : Split.cutLast [':', ':'] (':' :: v) = none := by
        rw [Split.cutLast, cutLast_eq_none h, if_neg (by rwa [List.isPrefixOf_iff_prefix])]
      rw [List.nil_append, Split.cutLast, hnext]
      rfl
  | cons c u ih => rw [List.cons_append, Split.cutLast, ih]

theorem replaceColons_append {u : List Char} (h : ':' ∉ u) (v : List Char) :
    Split.replaceColons '.' (u ++ v) = u ++ Split.replaceColons '.' v := by
  induction u with
  | nil => rfl
  | cons c u ih =>
      rw [List.mem_cons, not_or] at h
      rw [List.cons_append, Split.replaceColons, ih h.2, List.cons_append]
      rintro rest rfl _
      exact h.1 rfl

theorem count_replaceColons (cs : List Char) :
    (Split.replaceColons '.' cs).count '+' = cs.count '+' := by
  fun_induction Split.replaceColons '.' cs with
  | case1 rest ih => simpa using ih
  | case2 c rest _ ih => simp [List.count_cons, ih]
  | case3 => rfl

theorem trim_eq {cs : List Char} (hhead : ∀ c ∈ cs.head?, Split.isBlank c = false)
    (hlast : ∀ c ∈ cs.getLast?, Split.isBlank c = false) : Split.trim cs = cs := by
  have keep {ds : List Char} (h : ∀ c ∈ ds.head?, Split.isBlank c = false) :
      ds.dropWhile Split.isBlank = ds := by
    cases ds with
    | nil => rfl
    | cons d ds => rw [List.dropWhile_cons_of_neg (by simp [h d rfl])]
  rw [Split.trim, keep hhead, keep (by simpa using hlast), List.reverse_reverse]

/-! ## §3. Spellings. -/

theorem text_eq (gap : Nat) (n : TypeName) : n.text gap =
    (if n.isDyn then ['d', 'y', 'n', ' '] else []) ++
      (pathText n.outer n.last ++ angled gap (n.arguments.map (text gap)) ++
        (n.bounds.map (text gap)).flatMap (plus ++ ·)) := by
  obtain ⟨isDyn, outer, last, arguments, bounds⟩ := n
  rw [text, texts_eq_map, texts_eq_map]

theorem mem_pathText {outer : List Identifier} {last : Identifier} {c : Char}
    (h : c ∈ pathText outer last) :
    c = ':' ∨ c ∉ ['<', '>', ',', '+'] ∧ Split.isBlank c = false := by
  have word {i : Identifier} (hi : c ∈ i.chars) :
      c = ':' ∨ c ∉ ['<', '>', ',', '+'] ∧ Split.isBlank c = false :=
    .inr ⟨fun hc => (i.plain c hi).1 (List.mem_cons_of_mem _ hc), (i.plain c hi).2⟩
  induction outer with
  | nil => exact word h
  | cons i outer ih =>
      simp only [pathText, List.mem_append, List.mem_cons] at h
      rcases h with h | h | h | h
      · exact word h
      · exact .inl h
      · exact .inl h
      · exact ih h

theorem not_mem_pathText {c : Char} (hc : c ∈ ['<', '>', ',', '+', ' ']) (outer : List Identifier)
    (last : Identifier) : c ∉ pathText outer last := by
  intro h
  rcases mem_pathText h with rfl | ⟨hplain, hblank⟩
  · simp at hc
  · simp only [List.mem_cons, List.not_mem_nil, or_false, not_or] at hc hplain
    rcases hc with hc | hc | hc | hc | rfl
    · exact hplain.1 hc
    · exact hplain.2.1 hc
    · exact hplain.2.2.1 hc
    · exact hplain.2.2.2 hc
    · exact absurd hblank (by decide)

/-- The last segment ends the path, and the others stand before it. -/
theorem pathText_eq (outer : List Identifier) (last : Identifier) :
    (space outer = none ∧ pathText outer last = last.chars) ∨
      ∃ front, pathText outer last = front ++ ':' :: ':' :: last.chars ∧
        space outer = some (Split.replaceColons '.' front) := by
  induction outer with
  | nil => exact .inl ⟨rfl, rfl⟩
  | cons i outer ih =>
      have hi : ':' ∉ i.chars := fun h => (i.plain _ h).1 (by simp)
      rcases ih with ⟨hspace, hpath⟩ | ⟨front, hpath, hspace⟩
      · refine .inr ⟨i.chars, by rw [pathText, hpath], ?_⟩
        cases outer with
        | nil => simpa [space, Split.replaceColons] using (replaceColons_append hi []).symm
        | cons j outer => cases hspace
      · refine .inr ⟨i.chars ++ ':' :: ':' :: front, by simp [pathText, hpath], ?_⟩
        cases outer with
        | nil => cases hspace
        | cons j outer =>
            rw [space, Option.some.injEq] at hspace
            rw [replaceColons_append hi, Split.replaceColons, ← hspace]
            simp [space]

/-- With something behind it that starts with a bracket, the path ends at the first bracket. -/
theorem takeWhile_path (outer : List Identifier) (last : Identifier) {w : List Char}
    (hw : w.head? = none ∨ w.head? = some '<') :
    (pathText outer last ++ w).takeWhile (· ≠ '<') = pathText outer last := by
  have hpath : ∀ c ∈ pathText outer last, decide (c ≠ '<') = true := by
    intro c hc
    exact decide_eq_true (ne_of_mem_of_not_mem hc (not_mem_pathText (by simp) outer last))
  rw [List.takeWhile_append_of_pos hpath]
  cases w with
  | nil => simp
  | cons c w =>
      obtain rfl : c = '<' := by simpa using hw
      simp

/-- Such a path is taken apart at its last pair of colons. -/
theorem splitPlain_path (outer : List Identifier) (last : Identifier) {w : List Char}
    (hw : w.head? = none ∨ w.head? = some '<') (isInterface : Bool) :
    TypePath.splitPlain (pathText outer last ++ w) isInterface =
      ⟨(space outer).map String.ofList, String.ofList (last.chars ++ w), isInterface⟩ := by
  rw [TypePath.splitPlain, takeWhile_path outer last hw]
  have hlast : ':' ∉ last.chars := fun h => (last.plain _ h).1 (by simp)
  rcases pathText_eq outer last with ⟨hspace, hpath⟩ | ⟨front, hpath, hspace⟩
  · simp [hpath, hspace, cutLast_eq_none hlast]
  · simp [hpath, hspace, cutLast_append front hlast]

theorem pathText_ne_nil (outer : List Identifier) (last : Identifier) :
    pathText outer last ≠ [] := by
  cases outer with
  | nil => exact last.nonempty
  | cons i outer => simp [pathText]

theorem not_blank_of_mem_pathText {outer : List Identifier} {last : Identifier} {c : Char}
    (h : c ∈ pathText outer last) : Split.isBlank c = false := by
  rcases mem_pathText h with rfl | ⟨-, hc⟩
  · rfl
  · exact hc

theorem head_text (gap : Nat) (n : TypeName) :
    ∀ c ∈ (n.text gap).head?, Split.isBlank c = false := by
  intro c hc
  rw [text_eq] at hc
  cases hdyn : n.isDyn with
  | true =>
      simp only [hdyn, if_true, List.cons_append, List.head?_cons, Option.mem_some_iff] at hc
      rw [← hc]
      rfl
  | false =>
      obtain ⟨d, ds, hpath⟩ := List.exists_cons_of_ne_nil (pathText_ne_nil n.outer n.last)
      simp only [hdyn, Bool.false_eq_true, if_false, List.nil_append, hpath, List.cons_append,
        List.head?_cons, Option.mem_some_iff] at hc
      have hmem : c ∈ pathText n.outer n.last := by
        rw [hpath, hc]
        exact List.mem_cons_self
      exact not_blank_of_mem_pathText hmem

/-- The text ends with a character that is not blank. -/
def Ends (cs : List Char) : Prop :=
  ∃ front c, cs = front ++ [c] ∧ Split.isBlank c = false

theorem Ends.prepend {cs : List Char} (h : Ends cs) (w : List Char) : Ends (w ++ cs) := by
  obtain ⟨front, c, rfl, hc⟩ := h
  exact ⟨w ++ front, c, by simp, hc⟩

theorem ends_text (gap : Nat) (n : TypeName) : Ends (n.text gap) := by
  induction n using induct with
  | h n _ hb =>
      rw [text_eq]
      refine Ends.prepend ?_ _
      -- The last part that is there: a bound, the closing bracket, or the path.
      rcases List.eq_nil_or_concat n.bounds with hbounds | ⟨bounds, b, hbounds⟩
      · rw [hbounds, List.map_nil, List.flatMap_nil, List.append_nil]
        cases n.arguments with
        | nil =>
            rcases List.eq_nil_or_concat (pathText n.outer n.last) with hnil | ⟨front, c, hpath⟩
            · exact absurd hnil (pathText_ne_nil _ _)
            · refine ⟨front, c, by simp [hpath, angled], ?_⟩
              exact not_blank_of_mem_pathText (by rw [hpath]; simp)
        | cons a arguments =>
            have hclosed : Ends ['>'] := ⟨[], '>', rfl, rfl⟩
            exact (hclosed.prepend _).prepend _
      · rw [hbounds, List.concat_eq_append, List.map_append, List.flatMap_append]
        refine Ends.prepend (Ends.prepend ?_ _) _
        simpa using (hb b (by simp [hbounds])).prepend plus

theorem trim_text (gap : Nat) (n : TypeName) : Split.trim (n.text gap) = n.text gap := by
  refine trim_eq (head_text gap n) ?_
  obtain ⟨front, c, htext, hc⟩ := ends_text gap n
  simpa [htext] using hc

/-! ## §4. Brackets. -/

namespace Balanced

theorem append {cs ds : List Char} (hc : Balanced cs) (hd : Balanced ds) :
    Balanced (cs ++ ds) := by
  induction hc with
  | nil => exact hd
  | char h h' _ ih => exact .char h h' ih
  | nest hin _ _ ih => simpa using Balanced.nest hin ih

theorem of_not_mem {cs : List Char} (h : '<' ∉ cs) (h' : '>' ∉ cs) : Balanced cs := by
  induction cs with
  | nil => exact .nil
  | cons c cs ih =>
      rw [List.mem_cons, not_or] at h h'
      exact .char (Ne.symm h.1) (Ne.symm h'.1) (ih h.2 h'.2)

theorem count_eq {cs : List Char} (h : Balanced cs) : cs.count '<' = cs.count '>' := by
  induction h with
  | nil => rfl
  | char h h' _ ih => simp [h, h', ih]
  | nest _ _ ih ih' => simp [ih, ih', Nat.add_assoc]

theorem intercalate {sep : List Char} (hsep : Balanced sep) {ts : List (List Char)}
    (h : ∀ t ∈ ts, Balanced t) : Balanced (sep.intercalate ts) := by
  induction ts with
  | nil => exact .nil
  | cons t ts ih =>
      rw [List.forall_mem_cons] at h
      cases ts with
      | nil => simpa using h.1
      | cons t' ts =>
          rw [List.intercalate_cons_cons]
          exact (h.1.append hsep).append (ih h.2)

end Balanced

theorem not_mem_comma (gap : Nat) {c : Char} (h : c ∉ [',', ' ']) :
    c ∉ ',' :: List.replicate gap ' ' := by
  intro hc
  rw [List.mem_cons, List.mem_replicate] at hc
  rcases hc with rfl | ⟨-, rfl⟩ <;> simp at h

theorem balanced_angled (gap : Nat) {ts : List (List Char)} (h : ∀ t ∈ ts, Balanced t) :
    Balanced (angled gap ts) := by
  cases ts with
  | nil => exact .nil
  | cons t ts =>
      have hsep : Balanced (',' :: List.replicate gap ' ') :=
        .of_not_mem (not_mem_comma gap (by decide)) (not_mem_comma gap (by decide))
      exact .nest (hsep.intercalate h) .nil

theorem balanced_path (outer : List Identifier) (last : Identifier) :
    Balanced (pathText outer last) :=
  .of_not_mem (not_mem_pathText (by simp) outer last) (not_mem_pathText (by simp) outer last)

theorem balanced_identifier (i : Identifier) : Balanced i.chars := balanced_path [] i

/-- **Brackets are balanced in every spelling.** -/
theorem balanced_text (gap : Nat) (n : TypeName) : Balanced (n.text gap) := by
  induction n using induct with
  | h n ha hb =>
      have hdyn : Balanced (if n.isDyn then ['d', 'y', 'n', ' '] else []) := by
        split <;> exact .of_not_mem (by decide) (by decide)
      have harguments : Balanced (angled gap (n.arguments.map (text gap))) :=
        balanced_angled gap (List.forall_mem_map.mpr ha)
      have hbounds : Balanced ((n.bounds.map (text gap)).flatMap (plus ++ ·)) := by
        generalize n.bounds = bounds at hb
        induction bounds with
        | nil => exact .nil
        | cons b bounds ih =>
            rw [List.forall_mem_cons] at hb
            have hplus : Balanced plus := .of_not_mem (by decide) (by decide)
            exact (hplus.append hb.1).append (ih hb.2)
      rw [text_eq]
      exact hdyn.append (((balanced_path _ _).append harguments).append hbounds)

/-! ## §5. The first bound. -/

theorem not_mem_angled {gap : Nat} {ts : List (List Char)} {c : Char}
    (h : c ∉ ['<', '>', ',', ' ']) (hts : ∀ t ∈ ts, c ∉ t) : c ∉ angled gap ts := by
  have hsep : c ∉ ',' :: List.replicate gap ' ' := not_mem_comma gap fun hc => h (by simp_all)
  have hinner : c ∉ (',' :: List.replicate gap ' ').intercalate ts := by
    induction ts with
    | nil => simp
    | cons t ts ih =>
        rw [List.forall_mem_cons] at hts
        cases ts with
        | nil => simpa using hts.1
        | cons t' ts =>
            rw [List.intercalate_cons_cons, List.mem_append, List.mem_append, not_or, not_or]
            exact ⟨⟨hts.1, hsep⟩, ih hts.2⟩
  cases ts with
  | nil => simp [angled]
  | cons t ts => simp_all [angled]

/-- A bound stands in the text, and no more brackets are closed before it than are opened. -/
def Cuts (cs : List Char) : Prop :=
  ∃ u v, cs = u ++ plus ++ v ∧ '+' ∉ u ∧ u.count '>' ≤ u.count '<'

namespace Cuts

theorem append {cs : List Char} (h : Cuts cs) (w : List Char) : Cuts (cs ++ w) := by
  obtain ⟨u, v, rfl, hu, hcount⟩ := h
  exact ⟨u, v ++ w, by simp, hu, hcount⟩

theorem prepend {cs w : List Char} (h : Cuts cs) (hw : '+' ∉ w) (hbalanced : Balanced w) :
    Cuts (w ++ cs) := by
  obtain ⟨u, v, rfl, hu, hcount⟩ := h
  refine ⟨w ++ u, v, by simp, by simp [hw, hu], ?_⟩
  rw [List.count_append, List.count_append, hbalanced.count_eq]
  exact Nat.add_le_add_left hcount _

theorem intercalate {sep : List Char} (hsep : '+' ∉ sep) (hbalanced : Balanced sep)
    {ts : List (List Char)} (h : ∀ t ∈ ts, Cuts t ∨ '+' ∉ t ∧ Balanced t)
    (hsome : ∃ t ∈ ts, Cuts t) : Cuts (sep.intercalate ts) := by
  induction ts with
  | nil => simp at hsome
  | cons t ts ih =>
      rw [List.forall_mem_cons] at h
      cases ts with
      | nil => simpa using hsome
      | cons t' ts =>
          rw [List.intercalate_cons_cons]
          rcases h.1 with ht | ⟨hplus, ht⟩
          · exact (ht.append sep).append _
          · by_cases hhere : Cuts t
            · exact (hhere.append sep).append _
            · have hrest : ∃ u ∈ t' :: ts, Cuts u := by simpa [hhere] using hsome
              exact (ih h.2 hrest).prepend (by simp [hplus, hsep]) (ht.append hbalanced)

end Cuts

/-- Without bounds there is no plus sign. -/
theorem not_mem_text (gap : Nat) {n : TypeName} (h : ¬ HasBounds n) : '+' ∉ n.text gap := by
  induction n using induct with
  | h n ha _ =>
      have hbounds : n.bounds = [] := by_contra fun hb => h (.behind hb)
      have harguments : '+' ∉ angled gap (n.arguments.map (text gap)) := by
        refine not_mem_angled (by decide) (List.forall_mem_map.mpr fun a hmem => ?_)
        exact ha a hmem fun hb => h (.inside hmem hb)
      rw [text_eq, hbounds]
      have hpath : '+' ∉ pathText n.outer n.last := not_mem_pathText (by simp) _ _
      split <;> simp [harguments, hpath]

/-- **The first bound inside brackets** stands where one bracket more was opened than closed. -/
theorem cuts_angled (gap : Nat) {ns : List TypeName}
    (hns : ∀ n ∈ ns, HasBounds n → Cuts (n.text gap)) (h : ∃ n ∈ ns, HasBounds n) :
    ∃ u v, angled gap (ns.map (text gap)) = '<' :: u ++ plus ++ v ∧ '+' ∉ u ∧
      u.count '>' ≤ u.count '<' := by
  have hinner : Cuts ((',' :: List.replicate gap ' ').intercalate (ns.map (text gap))) := by
    refine Cuts.intercalate (not_mem_comma gap (by decide))
      (.of_not_mem (not_mem_comma gap (by decide)) (not_mem_comma gap (by decide))) ?_ ?_
    · refine List.forall_mem_map.mpr fun n hn => ?_
      by_cases hb : HasBounds n
      · exact .inl (hns n hn hb)
      · exact .inr ⟨not_mem_text gap hb, balanced_text gap n⟩
    · obtain ⟨n, hn, hb⟩ := h
      exact ⟨n.text gap, List.mem_map_of_mem hn, hns n hn hb⟩
  cases ns with
  | nil => simp at h
  | cons n ns =>
      obtain ⟨u, v, hcut, hu, hcount⟩ := hinner.append ['>']
      exact ⟨u, v, by rw [List.map_cons, angled, ← List.map_cons]; simp_all, hu, hcount⟩

theorem cuts_text (gap : Nat) {n : TypeName} (h : HasBounds n) : Cuts (n.text gap) := by
  induction n using induct with
  | h n ha _ =>
      have hdyn : '+' ∉ (if n.isDyn then ['d', 'y', 'n', ' '] else []) := by
        split <;> decide
      have hdyn' : Balanced (if n.isDyn then ['d', 'y', 'n', ' '] else []) := by
        split <;> exact .of_not_mem (by decide) (by decide)
      have hpath : '+' ∉ pathText n.outer n.last := not_mem_pathText (by simp) _ _
      rw [text_eq]
      refine Cuts.prepend ?_ hdyn hdyn'
      by_cases hsome : ∃ a ∈ n.arguments, HasBounds a
      · obtain ⟨u, v, hcut, hu, hcount⟩ := cuts_angled gap ha hsome
        refine Cuts.append (Cuts.prepend ⟨'<' :: u, v, hcut, by simpa using hu, ?_⟩ hpath
          (balanced_path _ _)) _
        simpa using Nat.le_succ_of_le hcount
      · have hnone : ∀ a ∈ n.arguments, ¬ HasBounds a := fun a hmem hb => hsome ⟨a, hmem, hb⟩
        have harguments : '+' ∉ angled gap (n.arguments.map (text gap)) :=
          not_mem_angled (by decide)
            (List.forall_mem_map.mpr fun a hmem => not_mem_text gap (hnone a hmem))
        have hbalanced : Balanced (angled gap (n.arguments.map (text gap))) :=
          balanced_angled gap (List.forall_mem_map.mpr fun a _ => balanced_text gap a)
        refine Cuts.prepend ?_ (by simp [hpath, harguments]) ((balanced_path _ _).append hbalanced)
        cases h with
        | inside hmem hb => exact absurd hb (hnone _ hmem)
        | behind hb =>
            obtain ⟨b, bounds, hcons⟩ := List.exists_cons_of_ne_nil hb
            rw [hcons]
            exact ⟨[], _, by simp; rfl, by simp, by simp⟩

/-! ## §6. Taking names apart. -/

theorem split_of_dyn {rest : List Char}
    (htrim : Split.trim ('d' :: 'y' :: 'n' :: ' ' :: rest) = 'd' :: 'y' :: 'n' :: ' ' :: rest) :
    TypePath.split (String.ofList ('d' :: 'y' :: 'n' :: ' ' :: rest)) =
      TypePath.splitPlain (TypePath.dropBounds rest) true := by
  rw [TypePath.split, String.toList_ofList, htrim]
  rfl

theorem split_of_not_dyn {cs : List Char} (htrim : Split.trim cs = cs)
    (h : ∀ rest, cs ≠ 'd' :: 'y' :: 'n' :: ' ' :: rest) :
    TypePath.split (String.ofList cs) = TypePath.splitPlain cs false := by
  rw [TypePath.split, String.toList_ofList, htrim]
  split
  · exact absurd rfl (h _)
  · rfl

theorem text_dyn (gap : Nat) {n : TypeName} (hdyn : n.isDyn = true) :
    n.text gap = 'd' :: 'y' :: 'n' :: ' ' ::
      (pathText n.outer n.last ++ angled gap (n.arguments.map (text gap)) ++
        (n.bounds.map (text gap)).flatMap (plus ++ ·)) := by
  rw [text_eq, hdyn]
  rfl

theorem text_plain (gap : Nat) {n : TypeName} (hdyn : n.isDyn = false) :
    n.text gap = pathText n.outer n.last ++ angled gap (n.arguments.map (text gap)) ++
        (n.bounds.map (text gap)).flatMap (plus ++ ·) := by
  rw [text_eq, hdyn]
  rfl

theorem parts_eq (gap : Nat) (n : TypeName) : n.parts gap =
    ⟨(space n.outer).map String.ofList,
      String.ofList (n.last.chars ++ angled gap (n.arguments.map (text gap))), n.isDyn⟩ := by
  rw [parts, texts_eq_map]

theorem head_angled (gap : Nat) (ts : List (List Char)) :
    (angled gap ts).head? = none ∨ (angled gap ts).head? = some '<' := by
  cases ts with
  | nil => exact .inl rfl
  | cons t ts => exact .inr rfl

/-- Only the word `dyn` puts a blank before the first bracket. -/
theorem path_ne_dyn (outer : List Identifier) (last : Identifier) {w : List Char}
    (hw : w.head? = none ∨ w.head? = some '<') (rest : List Char) :
    pathText outer last ++ w ≠ 'd' :: 'y' :: 'n' :: ' ' :: rest := by
  intro h
  have hstem := takeWhile_path outer last hw
  rw [h] at hstem
  refine not_mem_pathText (c := ' ') (by simp) outer last ?_
  rw [← hstem]
  simp

theorem isInterface_splitPlain (cs : List Char) (isInterface : Bool) :
    (TypePath.splitPlain cs isInterface).isInterface = isInterface := by
  rw [TypePath.splitPlain]
  split <;> rfl

/-- The plus signs in the parts of a name. -/
def signs (p : TypePath) : Nat := ((p.space.getD "").toList ++ p.name.toList).count '+'

theorem signs_splitPlain (cs : List Char) (isInterface : Bool) :
    signs (TypePath.splitPlain cs isInterface) = cs.count '+' := by
  have hstem : cs.takeWhile (· ≠ '<') ++ cs.drop (cs.takeWhile (· ≠ '<')).length = cs := by
    conv_rhs => rw [← List.take_append_drop (cs.takeWhile (· ≠ '<')).length cs]
    rw [← List.prefix_iff_eq_take.mp]
    exact List.takeWhile_prefix _
  have hcount := congrArg (List.count '+') hstem
  rw [List.count_append] at hcount
  rw [TypePath.splitPlain]
  split
  · next front last hcut =>
      rw [congrArg (List.count '+') (Split.eq_of_cutLast hcut)] at hcount
      simpa [signs, count_replaceColons, Nat.add_assoc] using hcount
  · simp [signs]

theorem signs_parts (gap : Nat) (n : TypeName) :
    signs (n.parts gap) = (angled gap (n.arguments.map (text gap))).count '+' := by
  have hlast : n.last.chars.count '+' = 0 :=
    List.count_eq_zero.mpr fun h => (n.last.plain _ h).1 (by simp)
  have hspace : (((space n.outer).map String.ofList).getD "").toList.count '+' = 0 := by
    have hpath : (pathText n.outer n.last).count '+' = 0 :=
      List.count_eq_zero.mpr (not_mem_pathText (by simp) _ _)
    rcases pathText_eq n.outer n.last with ⟨hspace, -⟩ | ⟨front, heq, hspace⟩
    · simp [hspace]
    · rw [heq, List.count_append] at hpath
      simpa [hspace, count_replaceColons] using Nat.eq_zero_of_add_eq_zero_right hpath
  rw [parts_eq, signs, List.count_append, hspace]
  simp [hlast]

theorem bounds_cases (ts : List (List Char)) :
    ts.flatMap (plus ++ ·) = [] ∨ plus <+: ts.flatMap (plus ++ ·) := by
  cases ts with
  | nil => exact .inl rfl
  | cons t ts => exact .inr ⟨t ++ ts.flatMap (plus ++ ·), by simp⟩

theorem split_plain (gap : Nat) {n : TypeName} (hdyn : n.isDyn = false) :
    TypePath.split (String.ofList (n.text gap)) = n.parts gap ↔ n.bounds = [] := by
  have htrim := trim_text gap n
  rw [text_plain gap hdyn] at htrim ⊢
  constructor
  · intro h
    by_contra hbounds
    obtain ⟨b, bounds, hcons⟩ := List.exists_cons_of_ne_nil hbounds
    by_cases hword : ∃ rest, n.text gap = 'd' :: 'y' :: 'n' :: ' ' :: rest
    · obtain ⟨rest, hrest⟩ := hword
      rw [← text_plain gap hdyn, hrest] at h htrim
      have hinterface := congrArg TypePath.isInterface h
      rw [split_of_dyn htrim, isInterface_splitPlain, parts_eq, hdyn] at hinterface
      cases hinterface
    · rw [not_exists, text_plain gap hdyn] at hword
      have hsigns := congrArg signs h
      rw [split_of_not_dyn htrim hword, signs_splitPlain, signs_parts, hcons] at hsigns
      simp [plus, List.count_eq_zero.mpr (not_mem_pathText (c := '+') (by simp) _ _)] at hsigns
  · intro hbounds
    rw [hbounds, List.map_nil, List.flatMap_nil, List.append_nil] at htrim ⊢
    rw [split_of_not_dyn htrim (path_ne_dyn _ _ (head_angled gap _)), parts_eq, hdyn,
      splitPlain_path _ _ (head_angled gap _)]

theorem split_dyn (gap : Nat) {n : TypeName} (hdyn : n.isDyn = true)
    (hnone : ∀ a ∈ n.arguments, ¬ HasBounds a) :
    TypePath.split (String.ofList (n.text gap)) = n.parts gap := by
  have htrim := trim_text gap n
  have hplus : '+' ∉ pathText n.outer n.last ++ angled gap (n.arguments.map (text gap)) := by
    rw [List.mem_append, not_or]
    exact ⟨not_mem_pathText (by simp) _ _, not_mem_angled (by decide)
      (List.forall_mem_map.mpr fun a ha => not_mem_text gap (hnone a ha))⟩
  rw [text_dyn gap hdyn] at htrim ⊢
  rw [split_of_dyn htrim, dropBounds_eq hplus (bounds_cases _),
    splitPlain_path _ _ (head_angled gap _), parts_eq, hdyn]

/-- **Taken apart, an interface with a bound inside its brackets keeps what stands before the first
one**, and brackets are open there. -/
theorem split_cut (gap : Nat) {n : TypeName} (hdyn : n.isDyn = true)
    (hsome : ∃ a ∈ n.arguments, HasBounds a) :
    ∃ kept lost, (n.parts gap).name.toList = kept ++ plus ++ lost ∧ '+' ∉ kept ∧
      ¬ Balanced kept ∧
      TypePath.split (String.ofList (n.text gap)) =
        ⟨(n.parts gap).space, String.ofList kept, true⟩ := by
  obtain ⟨u, v, hcut, hu, hcount⟩ := cuts_angled gap (fun a _ => cuts_text gap) hsome
  have hlast : '+' ∉ n.last.chars := not_mem_pathText (by simp) [] n.last
  refine ⟨n.last.chars ++ '<' :: u, v, by simp [parts_eq, hcut], by simp [hlast, hu], ?_, ?_⟩
  · intro hbalanced
    have heq := hbalanced.count_eq
    rw [List.count_append, List.count_append, (balanced_identifier n.last).count_eq] at heq
    simp only [List.count_cons_self, List.count_cons_of_ne (show '<' ≠ '>' by decide)] at heq
    omega
  · have hplus : '+' ∉ pathText n.outer n.last ++ '<' :: u := by
      simpa [hu] using not_mem_pathText (c := '+') (by simp) n.outer n.last
    have hrest : pathText n.outer n.last ++ ('<' :: u ++ plus ++ v) ++
        (n.bounds.map (text gap)).flatMap (plus ++ ·) =
          (pathText n.outer n.last ++ '<' :: u) ++
            (plus ++ (v ++ (n.bounds.map (text gap)).flatMap (plus ++ ·))) := by simp
    have htrim := trim_text gap n
    rw [text_dyn gap hdyn] at htrim ⊢
    rw [split_of_dyn htrim, hcut, hrest, dropBounds_eq hplus (.inr (List.prefix_append _ _)),
      splitPlain_path _ _ (.inr rfl), parts_eq]

theorem balanced_parts (gap : Nat) (n : TypeName) : Balanced (n.parts gap).name.toList := by
  rw [parts_eq, String.toList_ofList]
  exact (balanced_identifier n.last).append
    (balanced_angled gap (List.forall_mem_map.mpr fun a _ => balanced_text gap a))

/-- **A name of a type is taken apart** into its namespace, its last segment with all of its
arguments and the word before it, exactly if it is an interface without bounds inside its brackets,
or no interface and without bounds behind it.  The brackets of that part are balanced.  The word
and the namespace of an interface are always found.  One with bounds inside its brackets has a
name that ends before the first of them, where brackets are still open. -/
theorem split_text (gap : Nat) (n : TypeName) :
    (TypePath.split (String.ofList (n.text gap)) = n.parts gap ↔ n.Splits) ∧
      Balanced (n.parts gap).name.toList ∧
      (n.isDyn = true →
        (TypePath.split (String.ofList (n.text gap))).isInterface = true ∧
          (TypePath.split (String.ofList (n.text gap))).space = (n.parts gap).space ∧
          (¬ n.Splits → ∃ kept lost, (n.parts gap).name.toList = kept ++ plus ++ lost ∧
            '+' ∉ kept ∧ ¬ Balanced kept ∧
            (TypePath.split (String.ofList (n.text gap))).name.toList = kept)) := by
  cases hdyn : n.isDyn with
  | false =>
      refine ⟨?_, balanced_parts gap n, fun h => absurd h (by decide)⟩
      rw [split_plain gap hdyn, Splits, if_neg (by simp [hdyn])]
  | true =>
      have hsplits : n.Splits ↔ ∀ a ∈ n.arguments, ¬ HasBounds a := by
        rw [Splits, if_pos hdyn]
      by_cases hnone : ∀ a ∈ n.arguments, ¬ HasBounds a
      · have hsplit := split_dyn gap hdyn hnone
        refine ⟨⟨fun _ => hsplits.mpr hnone, fun _ => hsplit⟩, balanced_parts gap n, fun _ => ?_⟩
        rw [hsplit]
        exact ⟨hdyn, rfl, fun h => absurd (hsplits.mpr hnone) h⟩
      · have hsome : ∃ a ∈ n.arguments, HasBounds a := by simpa using hnone
        obtain ⟨kept, lost, hname, hkept, hopen, hsplit⟩ := split_cut gap hdyn hsome
        have hne : TypePath.split (String.ofList (n.text gap)) ≠ n.parts gap := by
          intro heq
          rw [← heq, hsplit, String.toList_ofList] at hname
          exact hkept (hname ▸ by simp [plus])
        refine ⟨⟨fun h => absurd h hne, fun h => absurd (hsplits.mp h) hnone⟩,
          balanced_parts gap n, fun _ => ?_⟩
        rw [hsplit]
        exact ⟨rfl, rfl, fun _ => ⟨kept, lost, hname, hkept, hopen, String.toList_ofList⟩⟩

/-- `dyn drv::zoo::inner::Carry<dyn drv::zoo::inner::Fly + core::marker::Send>`. -/
def nestedBound : TypeName :=
  let inner : List Identifier :=
    [⟨['d', 'r', 'v'], by decide, by decide⟩, ⟨['z', 'o', 'o'], by decide, by decide⟩,
      ⟨['i', 'n', 'n', 'e', 'r'], by decide, by decide⟩]
  let send : TypeName :=
    ⟨false, [⟨['c', 'o', 'r', 'e'], by decide, by decide⟩,
      ⟨['m', 'a', 'r', 'k', 'e', 'r'], by decide, by decide⟩],
      ⟨['S', 'e', 'n', 'd'], by decide, by decide⟩, [], []⟩
  let fly : TypeName := ⟨true, inner, ⟨['F', 'l', 'y'], by decide, by decide⟩, [], [send]⟩
  ⟨true, inner, ⟨['C', 'a', 'r', 'r', 'y'], by decide, by decide⟩, [fly], []⟩

/-- An interface with an argument that is an interface with a bound: its name loses that bound and
the bracket behind it. -/
theorem split_nested_bound :
    String.ofList (nestedBound.text 1) =
        "dyn drv::zoo::inner::Carry<dyn drv::zoo::inner::Fly + core::marker::Send>" ∧
      nestedBound.parts 1 =
        ⟨some "drv.zoo.inner", "Carry<dyn drv::zoo::inner::Fly + core::marker::Send>", true⟩ ∧
      TypePath.split (String.ofList (nestedBound.text 1)) =
        ⟨some "drv.zoo.inner", "Carry<dyn drv::zoo::inner::Fly", true⟩ := by
  decide +kernel

end TypeName
end ValueText
