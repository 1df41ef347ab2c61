/-
  ValueText.Proofs.Types.MethodNames — methods that have no name of their own.

  The name that is made up for such a method has one of two forms, and it says where the
  method stands:

      <path>b__rest           a lambda; no bracket closes in the path, the rest is one line
      path::{{closure}}rest   a closure, all on one line; the path may be missing, with its
                              colons

  A name of both forms counts as a lambda.  A closure inside of another one has the marker
  more than once, and the path ends before the first one that has colons in front of it.  The
  method around is the last segment of the path that is no marker.

      pattern                 both forms as one pattern, with a group for each path
      IsLambda, IsClosure     the forms
      Classed cs c            `c` is the class that the forms give to `cs`

  Main results:

    • `classify_eq_ofMatch`   the class is what a search for the pattern finds;
    • `classed_iff`           it is the one that the forms give;
    • `Faithful.askAll`       a memory of classes remembers nothing else;
    • `classify_grammar`      all of this for every name, and what the method around is called.
-/
import ValueText.Proofs.Text.Patterns
import ValueText.Proofs.Text.Segments
import ValueText.Types.Method

namespace ValueText

namespace MethodName

open Split (colons Segments)

/-! ## §1. The forms. -/

/-- Whether a character stays on the line. -/
def inLine (c : Char) : Bool := c ≠ '\n'

/-- What stands between the path of a lambda and the rest of its name. -/
def lambdaMark : List Char := ['>', 'b', '_', '_']

/-- The pattern of a lambda. -/
def lambdaPattern : Pattern :=
  .both (.literal ['<']) (.both (.group "lambda" (.many (· ≠ '>') true))
    (.both (.literal lambdaMark) (.many inLine true)))

/-- The pattern of a closure. -/
def closurePattern : Pattern :=
  .both (.optional (.both (.group "closure" (.many inLine false)) (.literal colons)))
    (.both (.literal closureMarker) (.many inLine true))

/-- The pattern of names that are made up. -/
def pattern : Pattern :=
  .both .start (.both (.either lambdaPattern closurePattern) .finish)

/-- The class of a name, from a match of the pattern. -/
def ofMatch : Option Pattern.Place → MethodName
  | none => .named
  | some s => .anonymous (((s.group? "lambda").or (s.group? "closure")).bind enclosing?)

/-- The name of a lambda behind a path. -/
def IsLambda (cs path : List Char) : Prop :=
  ∃ rest, cs = '<' :: path ++ lambdaMark ++ rest ∧ '>' ∉ path ∧ '\n' ∉ rest

/-- A path with its colons, if there is one. -/
def lead : Option (List Char) → List Char
  | some path => path ++ colons
  | none => []

/-- The name of a closure behind a path, if there is one. -/
def IsClosure (cs : List Char) (path : Option (List Char)) : Prop :=
  ∃ rest, cs = lead path ++ closureMarker ++ rest ∧ '\n' ∉ lead path ∧ '\n' ∉ rest

/-- The last segment that is no marker, unless it is empty. -/
def lastNamed (segs : List (List Char)) : Option String :=
  match (segs.filter (· ≠ closureMarker)).getLast? with
  | some (c :: cs) => some (String.ofList (c :: cs))
  | some [] | none => none

/-- The class of a name by its form. -/
inductive Classed (cs : List Char) : MethodName → Prop
  | lambda {path : List Char} {segs : List (List Char)} (form : IsLambda cs path)
      (segments : Segments path segs) : Classed cs (.anonymous (lastNamed segs))
  /-- Of the paths in front of a marker, the shortest one counts. -/
  | closure {path : List Char} {segs : List (List Char)} (noLambda : ∀ p, ¬ IsLambda cs p)
      (form : IsClosure cs (some path))
      (shortest : ∀ p, IsClosure cs (some p) → path.length ≤ p.length)
      (segments : Segments path segs) : Classed cs (.anonymous (lastNamed segs))
  | pathless (noLambda : ∀ p, ¬ IsLambda cs p) (noPath : ∀ p, ¬ IsClosure cs (some p))
      (form : IsClosure cs none) : Classed cs (.anonymous none)
  | named (noLambda : ∀ p, ¬ IsLambda cs p) (noClosure : ∀ p, ¬ IsClosure cs p) :
      Classed cs .named

/-! ## §2. What a search finds. -/

theorem oneLine_eq_all (cs : List Char) : oneLine cs = cs.all inLine := by
  induction cs with
  | nil => rfl
  | cons c cs ih =>
      rw [List.all_cons, ← ih]
      simp [oneLine, inLine, eq_comm]

theorem oneLine_iff {cs : List Char} : oneLine cs = true ↔ '\n' ∉ cs := by simp [oneLine]

/-- Some characters, and behind them nothing but the rest of a line. -/
def ending (cs : List Char) : Pattern := .both (.literal cs) (.both (.many inLine true) .finish)

theorem ways_ending {cs : List Char} (h : oneLine cs = true) (s : Pattern.Place) :
    (ending cs).ways s =
      if cs.isPrefixOf s.rest && s.rest.all inLine then [⟨s.before ++ s.rest, [], s.groups⟩]
      else [] := by
  rw [oneLine_eq_all] at h
  rw [ending, Pattern.ways, Pattern.ways]
  by_cases hp : cs.isPrefixOf s.rest = true
  · have hrest := Split.eq_append_of_isPrefixOf hp
    have hall : s.rest.all inLine = (s.rest.drop cs.length).all inLine := by
      conv_lhs => rw [hrest, List.all_append, h, Bool.true_and]
    have htext : s.before ++ cs ++ s.rest.drop cs.length = s.before ++ s.rest := by
      rw [List.append_assoc, ← hrest]
    rw [if_pos hp, List.flatMap_singleton, Pattern.ways_line, hp, Bool.true_and, hall, htext]
  · simp [hp]

/-- The path of a lambda ends at the first bracket that closes. -/
theorem lambdaPath?_cons (cs : List Char) :
    lambdaPath? ('<' :: cs) =
      if lambdaMark.isPrefixOf (cs.dropWhile (· ≠ '>')) &&
          (cs.dropWhile (· ≠ '>')).all inLine then some (cs.takeWhile (· ≠ '>'))
      else none := by
  rw [lambdaPath?]
  split
  · next rest hrest =>
      rw [hrest, oneLine_eq_all]
      rfl
  · next h =>
      rw [if_neg]
      intro hmark
      rw [Bool.and_eq_true, List.isPrefixOf_iff_prefix] at hmark
      obtain ⟨⟨rest, hrest⟩, -⟩ := hmark
      exact h rest hrest.symm

theorem lambdaPath?_of_ne {c : Char} (h : c ≠ '<') (cs : List Char) :
    lambdaPath? (c :: cs) = none := by
  rw [lambdaPath?.eq_2]
  intro ds hds
  exact h (List.cons.inj hds).1

/-- A match as a lambda keeps the path that `lambdaPath?` finds. -/
theorem groups_lambda (cs : List Char) :
    ((Pattern.both lambdaPattern .finish).ways ⟨[], cs, []⟩).head?.map (·.groups) =
      (lambdaPath? cs).map fun path => [("lambda", path)] := by
  have hways (s : Pattern.Place) : (Pattern.both lambdaPattern .finish).ways s =
      (Pattern.both (.literal ['<'])
        (.both (.group "lambda" (.many (· ≠ '>') true)) (ending lambdaMark))).ways s := by
    simp only [lambdaPattern, ending, Pattern.ways, List.flatMap_assoc]
  -- The mark begins with the bracket that the path does not contain.
  have hmark : ∀ (s : Pattern.Place) c ds, s.rest = c :: ds → decide (c ≠ '>') = true →
      (ending lambdaMark).ways s = [] := by
    intro s c ds hs hc
    have hne : '>' ≠ c := (of_decide_eq_true hc).symm
    rw [ways_ending (by decide), hs]
    simp [lambdaMark, List.isPrefixOf, hne]
  rw [hways, Pattern.ways]
  cases cs with
  | nil => rfl
  | cons c cs =>
      by_cases hc : c = '<'
      · subst hc
        rw [Pattern.ways, if_pos (by rfl), List.flatMap_singleton]
        show ((Pattern.both _ _).ways ⟨['<'], cs, []⟩).head?.map _ = _
        rw [Pattern.ways_longest "lambda" hmark, ways_ending (by decide), lambdaPath?_cons]
        dsimp only
        split <;> rfl
      · have hp : ['<'].isPrefixOf (c :: cs) = false := by simp [List.isPrefixOf, Ne.symm hc]
        rw [Pattern.ways, if_neg (by simp [hp]), lambdaPath?_of_ne hc]
        rfl

/-- A match as a closure keeps the path that `closurePath?` finds, if there is one. -/
theorem groups_closure (cs : List Char) :
    ((Pattern.both closurePattern .finish).ways ⟨[], cs, []⟩).head?.map (·.groups) =
      (closurePath? cs).map fun path => (path.map fun p => ("closure", p)).toList := by
  have hways (s : Pattern.Place) : (Pattern.both closurePattern .finish).ways s =
      (Pattern.both (.group "closure" (.many inLine false))
        (.both (.literal colons) (ending closureMarker))).ways s ++
      (ending closureMarker).ways s := by
    simp only [closurePattern, ending, Pattern.ways, List.flatMap_assoc, List.flatMap_append,
      List.flatMap_singleton]
  have hmarked : (Pattern.both (.literal colons) (ending closureMarker)).ways =
      (ending (colons ++ closureMarker)).ways := Pattern.ways_literal_append _ _ _
  have hpath : (((Pattern.both (.group "closure" (.many inLine false))
        (.both (.literal colons) (ending closureMarker))).ways ⟨[], cs, []⟩).head?.map (·.groups)) =
      if cs.all inLine then
        (Split.cutFirst (colons ++ closureMarker) cs).map fun p => [("closure", p.1)]
      else none := by
    rw [Pattern.head?_shortest, hmarked, List.map_findSome?,
      ← Pattern.findSome?_splits inLine (colons ++ closureMarker) fun path => [("closure", path)]]
    congr 1
    funext x
    rw [Function.comp, ways_ending (by decide)]
    split <;> rfl
  rw [hways, List.head?_append, Option.map_or, hpath, ways_ending (by decide), closurePath?,
    oneLine_eq_all]
  -- A path is preferred to none, which is tried at the beginning only.
  cases cs.all inLine with
  | false => simp
  | true =>
      have hcolons : (':' :: ':' :: closureMarker) = colons ++ closureMarker := rfl
      rw [hcolons]
      cases Split.cutFirst (colons ++ closureMarker) cs with
      | some p => rfl
      | none => cases closureMarker.isPrefixOf cs <;> rfl

theorem ofMatch_of_none {m : Option Pattern.Place} (h : m.map (·.groups) = none) :
    ofMatch m = .named := by
  rw [Option.map_eq_none_iff.mp h, ofMatch]

theorem ofMatch_of_some {m : Option Pattern.Place} {gs : List (String × List Char)}
    (h : m.map (·.groups) = some gs) :
    ofMatch m = .anonymous (((gs.lookup "lambda").or (gs.lookup "closure")).bind enclosing?) := by
  obtain ⟨s, rfl, rfl⟩ := Option.map_eq_some_iff.mp h
  rfl

/-- **The class of a name is what a search for the pattern finds.** -/
theorem classify_eq_ofMatch (name : String) :
    classify name = ofMatch (pattern.search name.toList) := by
  have hsearch : pattern.search name.toList =
      (((Pattern.both lambdaPattern .finish).ways ⟨[], name.toList, []⟩).head?).or
        ((Pattern.both closurePattern .finish).ways ⟨[], name.toList, []⟩).head? := by
    rw [pattern, Pattern.search_start, ← List.head?_append]
    simp only [Pattern.ways, List.flatMap_append]
  have hgroups := congrArg (Option.map (·.groups)) hsearch
  rw [Option.map_or, groups_lambda, groups_closure] at hgroups
  rw [classify]
  cases hlambda : lambdaPath? name.toList with
  | some path =>
      rw [hlambda] at hgroups
      exact (ofMatch_of_some hgroups).symm
  | none =>
      rw [hlambda] at hgroups
      cases hclosure : closurePath? name.toList with
      | none =>
          rw [hclosure] at hgroups
          exact (ofMatch_of_none hgroups).symm
      | some path =>
          rw [hclosure] at hgroups
          rw [ofMatch_of_some hgroups]
          cases path <;> rfl

/-! ## §3. What the forms say. -/

theorem lambdaPath?_eq_some_iff {cs path : List Char} :
    lambdaPath? cs = some path ↔ IsLambda cs path := by
  constructor
  · intro h
    cases cs with
    | nil => cases h
    | cons c cs =>
        by_cases hc : c = '<'
        · subst hc
          rw [lambdaPath?_cons] at h
          split at h
          · next hmark =>
              cases h
              rw [Bool.and_eq_true, ← oneLine_eq_all, oneLine_iff] at hmark
              obtain ⟨rest, hrest⟩ := List.isPrefixOf_iff_prefix.mp hmark.1
              refine ⟨rest, ?_, ?_, ?_⟩
              · rw [List.append_assoc, hrest, List.cons_append, List.takeWhile_append_dropWhile]
              · intro hmem
                simpa using List.all_eq_true.mp List.all_takeWhile _ hmem
              · intro hmem
                exact hmark.2 (hrest ▸ List.mem_append_right _ hmem)
          · cases h
        · rw [lambdaPath?_of_ne hc] at h
          cases h
  · rintro ⟨rest, rfl, hpath, hrest⟩
    -- No bracket closes in the path, so it is what stands before the first one that does.
    have hopen : ∀ c ∈ path, decide (c ≠ '>') = true :=
      fun c hc => decide_eq_true (ne_of_mem_of_not_mem hc hpath)
    have htake : (lambdaMark ++ rest).takeWhile (· ≠ '>') = [] := rfl
    have hdrop : (lambdaMark ++ rest).dropWhile (· ≠ '>') = lambdaMark ++ rest := rfl
    have hline : (lambdaMark ++ rest).all inLine = true := by
      rw [← oneLine_eq_all, oneLine_iff]
      simp [lambdaMark, hrest]
    rw [List.append_assoc, List.cons_append, lambdaPath?_cons,
      List.takeWhile_append_of_pos hopen, List.dropWhile_append_of_pos hopen, htake, hdrop,
      List.isPrefixOf_iff_prefix.mpr (List.prefix_append _ _), hline, List.append_nil]
    rfl

theorem IsLambda.unique {cs path path' : List Char} (h : IsLambda cs path)
    (h' : IsLambda cs path') : path = path' := by
  rw [← lambdaPath?_eq_some_iff] at h h'
  exact Option.some.inj (h.symm.trans h')

theorem isClosure_iff {cs : List Char} {path : Option (List Char)} :
    IsClosure cs path ↔ lead path ++ closureMarker <+: cs ∧ oneLine cs = true := by
  have hmarker : '\n' ∉ closureMarker := by decide
  rw [oneLine_iff]
  constructor
  · rintro ⟨rest, rfl, hlead, hrest⟩
    refine ⟨⟨rest, rfl⟩, ?_⟩
    simp only [List.mem_append, not_or]
    exact ⟨⟨hlead, hmarker⟩, hrest⟩
  · rintro ⟨⟨rest, rfl⟩, hline⟩
    simp only [List.mem_append, not_or] at hline
    exact ⟨rest, rfl, hline.1.1, hline.2⟩

/-- Paths of one length in front of a marker are the same. -/
theorem IsClosure.unique {cs path path' : List Char} (h : IsClosure cs (some path))
    (h' : IsClosure cs (some path')) (hlength : path.length = path'.length) : path = path' := by
  have hpath : path <+: cs :=
    ((List.prefix_append _ _).trans (List.prefix_append _ _)).trans (isClosure_iff.mp h).1
  have hpath' : path' <+: cs :=
    ((List.prefix_append _ _).trans (List.prefix_append _ _)).trans (isClosure_iff.mp h').1
  exact (List.prefix_of_prefix_length_le hpath hpath' (Nat.le_of_eq hlength)).eq_of_length hlength

/-- **The path of a closure ends where colons and a marker stand first.** -/
theorem closurePath?_spec (cs : List Char) :
    match closurePath? cs with
    | some (some path) =>
        IsClosure cs (some path) ∧ ∀ p, IsClosure cs (some p) → path.length ≤ p.length
    | some none => (∀ p, ¬ IsClosure cs (some p)) ∧ IsClosure cs none
    | none => ∀ p, ¬ IsClosure cs p := by
  have hcolons : (':' :: ':' :: closureMarker) = colons ++ closureMarker := rfl
  rw [closurePath?, hcolons]
  cases hline : oneLine cs with
  | false =>
      intro p h
      rw [(isClosure_iff.mp h).2] at hline
      cases hline
  | true =>
      rw [if_pos rfl]
      cases hcut : Split.cutFirst (colons ++ closureMarker) cs with
      | some p =>
          have htext := Split.eq_of_cutFirst hcut
          refine ⟨isClosure_iff.mpr ⟨⟨p.2, ?_⟩, hline⟩, fun q hq => ?_⟩
          · rw [htext, lead, List.append_assoc p.1]
          · obtain ⟨rest, hrest, -, -⟩ := hq
            rw [lead, List.append_assoc q] at hrest
            exact Split.cutFirst_le hcut hrest
      | none =>
          have hnone := (Split.cutFirst_eq_none_iff (by decide)).mp hcut
          have hpath : ∀ p, ¬ IsClosure cs (some p) := by
            rintro p ⟨rest, rfl, -, -⟩
            refine hnone ⟨p, rest, ?_⟩
            simp only [lead, List.append_assoc]
          -- Without a path, only the beginning is left.
          have hbegin : IsClosure cs none ↔ closureMarker.isPrefixOf cs = true := by
            rw [isClosure_iff, List.isPrefixOf_iff_prefix, and_iff_left hline]
            rfl
          cases hmarker : closureMarker.isPrefixOf cs with
          | true => exact ⟨hpath, hbegin.mpr hmarker⟩
          | false =>
              intro p hp
              cases p with
              | some p => exact hpath p hp
              | none =>
                  rw [hbegin.mp hp] at hmarker
                  cases hmarker

/-! ## §4. The class of a name. -/

/-- The method around is the last segment of the path that is no marker. -/
theorem enclosing?_eq {path : List Char} {segs : List (List Char)} (h : Segments path segs) :
    enclosing? path = lastNamed segs := by
  have hparts : Split.partsFromEnd [':', ':'] path = segs.reverse := h.partsFromEnd_eq
  have hlast : (segs.filter (· ≠ closureMarker)).getLast? =
      (Split.partsFromEnd [':', ':'] path).find? (· ≠ closureMarker) := by
    rw [hparts, List.getLast?_filter]
  unfold enclosing? lastNamed
  exact hlast ▸ rfl

theorem lastNamed_eq_some {path : List Char} {segs : List (List Char)} {e : String}
    (h : Segments path segs) (he : lastNamed segs = some e) :
    e ≠ "" ∧ e.toList ≠ closureMarker ∧ ¬ colons <:+: e.toList := by
  unfold lastNamed at he
  split at he
  · next c cs hlast =>
      cases he
      have hmem := List.mem_filter.mp (List.mem_of_getLast? hlast)
      rw [String.toList_ofList]
      refine ⟨?_, of_decide_eq_true hmem.2, h.apart _ hmem.1⟩
      intro hempty
      have hlist := congrArg String.toList hempty
      rw [String.toList_ofList] at hlist
      cases hlist
  · cases he
  · cases he

/-- **Every name has the class that is read off its form.** -/
theorem classed_classify (name : String) : Classed name.toList (classify name) := by
  have hclosure := closurePath?_spec name.toList
  rw [classify]
  cases hlambda : lambdaPath? name.toList with
  | some path =>
      have hsegs := Split.segments_partsFromEnd path
      dsimp only
      rw [enclosing?_eq hsegs]
      exact .lambda (lambdaPath?_eq_some_iff.mp hlambda) hsegs
  | none =>
      have hno : ∀ p, ¬ IsLambda name.toList p := by
        intro p hp
        rw [lambdaPath?_eq_some_iff.mpr hp] at hlambda
        cases hlambda
      cases hpath : closurePath? name.toList with
      | none =>
          rw [hpath] at hclosure
          exact .named hno hclosure
      | some path =>
          rw [hpath] at hclosure
          cases path with
          | none => exact .pathless hno hclosure.1 hclosure.2
          | some path =>
              have hsegs := Split.segments_partsFromEnd path
              dsimp only
              rw [Option.bind_some, enclosing?_eq hsegs]
              exact .closure hno hclosure.1 hclosure.2 hsegs

/-- The forms give a name one class only. -/
theorem Classed.unique {cs : List Char} {c c' : MethodName} (h : Classed cs c)
    (h' : Classed cs c') : c = c' := by
  cases h with
  | lambda form segments =>
      cases h' with
      | lambda form' segments' =>
          cases form.unique form'
          rw [segments.unique segments']
      | closure noLambda => exact absurd form (noLambda _)
      | pathless noLambda => exact absurd form (noLambda _)
      | named noLambda => exact absurd form (noLambda _)
  | closure noLambda form shortest segments =>
      cases h' with
      | lambda form' => exact absurd form' (noLambda _)
      | closure _ form' shortest' segments' =>
          cases form.unique form' (Nat.le_antisymm (shortest _ form') (shortest' _ form))
          rw [segments.unique segments']
      | pathless _ noPath => exact absurd form (noPath _)
      | named _ noClosure => exact absurd form (noClosure _)
  | pathless noLambda noPath form =>
      cases h' with
      | lambda form' => exact absurd form' (noLambda _)
      | closure _ form' => exact absurd form' (noPath _)
      | pathless => rfl
      | named _ noClosure => exact absurd form (noClosure _)
  | named noLambda noClosure =>
      cases h' with
      | lambda form' => exact absurd form' (noLambda _)
      | closure _ form' => exact absurd form' (noClosure _)
      | pathless _ _ form' => exact absurd form' (noClosure _)
      | named => rfl

theorem classed_iff {name : String} {c : MethodName} :
    Classed name.toList c ↔ classify name = c := by
  constructor
  · intro h
    exact (classed_classify name).unique h
  · rintro rfl
    exact classed_classify name

end MethodName

/-! ## §5. Memories of classes. -/

namespace MethodNames

/-- What a memory is asked for. -/
inductive Query
  | classOf (name : String)
  | signatureOf (m : Method)

/-- A memory after a query. -/
def ask (ns : MethodNames) : Query → MethodNames
  | .classOf name => (ns.classify name).2
  | .signatureOf m => (ns.signature m).2

/-- A memory after some queries. -/
def askAll (ns : MethodNames) (qs : List Query) : MethodNames := qs.foldl ask ns

/-- What is remembered of a name is its class. -/
def Faithful (ns : MethodNames) : Prop :=
  ∀ name c, ns.known.get? name = some c → c = MethodName.classify name

variable {ns : MethodNames}

theorem faithful_new : Faithful {} := fun _ _ h => nomatch h

theorem Faithful.classify (h : ns.Faithful) (name : String) :
    (ns.classify name).1 = MethodName.classify name ∧ (ns.classify name).2.Faithful := by
  unfold MethodNames.classify
  cases hname : ns.known.get? name with
  | some c => exact ⟨h name c hname, h⟩
  | none =>
      refine ⟨rfl, ?_⟩
      intro name' c hc
      rw [Table.get?_set] at hc
      split at hc
      · next heq =>
          cases hc
          rw [heq]
      · exact h name' c hc

theorem Faithful.signature (h : ns.Faithful) (m : Method) :
    (ns.signature m).1 = m.signature ∧ (ns.signature m).2.Faithful := by
  unfold MethodNames.signature
  cases hkind : m.kind with
  | method =>
      obtain ⟨hclass, hfaithful⟩ := h.classify m.name
      refine ⟨?_, hfaithful⟩
      show m.signatureBy (fun _ => (ns.classify m.name).1) = m.signatureBy MethodName.classify
      simp only [Method.signatureBy, hclass]
  | constructor => exact ⟨rfl, h⟩
  | staticConstructor => exact ⟨rfl, h⟩

theorem Faithful.ask (h : ns.Faithful) (q : Query) : (ns.ask q).Faithful := by
  cases q with
  | classOf name => exact (h.classify name).2
  | signatureOf m => exact (h.signature m).2

/-- **Whatever a memory was asked for, it remembers classes only.** -/
theorem Faithful.askAll (h : ns.Faithful) (qs : List Query) : (ns.askAll qs).Faithful := by
  induction qs generalizing ns with
  | nil => exact h
  | cons q qs ih => exact ih (h.ask q)

end MethodNames

/-! ## §6. Names and their classes. -/

namespace MethodName

open Split (colons Segments)

/-- **A name is made up exactly if it has one of the forms.  The method around is the last
segment of the path of a lambda, or else of the shortest path of a closure, that is no marker;
so it is no marker, not empty, and has no colons in it.  A search for the pattern finds the same,
and so does every memory, whatever it was asked for before.** -/
theorem classify_grammar (name : String) :
    ((∃ e, classify name = .anonymous e) ↔
      (∃ path, IsLambda name.toList path) ∨ ∃ path, IsClosure name.toList path) ∧
    (∀ c, classify name = c ↔ Classed name.toList c) ∧
    (∀ e, classify name = .anonymous (some e) →
      e ≠ "" ∧ e.toList ≠ closureMarker ∧ ¬ colons <:+: e.toList) ∧
    classify name = ofMatch (pattern.search name.toList) ∧
    ∀ qs : List MethodNames.Query,
      ((MethodNames.askAll {} qs).classify name).1 = classify name := by
  refine ⟨?_, fun c => classed_iff.symm, ?_, classify_eq_ofMatch name, ?_⟩
  · constructor
    · rintro ⟨e, he⟩
      cases classed_iff.mpr he with
      | lambda form => exact .inl ⟨_, form⟩
      | closure _ form => exact .inr ⟨_, form⟩
      | pathless _ _ form => exact .inr ⟨_, form⟩
    · intro h
      cases hclass : classify name with
      | anonymous e => exact ⟨e, rfl⟩
      | named =>
          cases classed_iff.mpr hclass with
          | named noLambda noClosure =>
              rcases h with ⟨path, hpath⟩ | ⟨path, hpath⟩
              · exact absurd hpath (noLambda path)
              · exact absurd hpath (noClosure path)
  · intro e he
    have hclassed := classed_iff.mpr he
    generalize hc : MethodName.anonymous (some e) = c at hclassed
    cases hclassed with
    | lambda _ segments => exact lastNamed_eq_some segments (MethodName.anonymous.inj hc).symm
    | closure _ _ _ segments => exact lastNamed_eq_some segments (MethodName.anonymous.inj hc).symm
    | pathless => cases hc
    | named => cases hc
  · intro qs
    exact ((MethodNames.faithful_new.askAll qs).classify name).1

/-- Markers at the end of a path are passed over. -/
theorem classify_grammar_feed :
    classify "<zoo::feed::\x7b\x7bclosure\x7d\x7d>b__0" = .anonymous (some "feed") ∧
      "feed" ≠ "" ∧ "feed".toList ≠ closureMarker ∧ ¬ colons <:+: "feed".toList := by
  obtain ⟨-, hclasses, hname, -⟩ :=
    classify_grammar "<zoo::feed::\x7b\x7bclosure\x7d\x7d>b__0"
  have hform : IsLambda "<zoo::feed::\x7b\x7bclosure\x7d\x7d>b__0".toList
      "zoo::feed::\x7b\x7bclosure\x7d\x7d".toList := ⟨['0'], by decide⟩
  have hsegments : Segments "zoo::feed::\x7b\x7bclosure\x7d\x7d".toList
      ["zoo".toList, "feed".toList, closureMarker] :=
    ⟨by decide, by decide, by decide, by decide⟩
  have hclass := (hclasses (.anonymous (some "feed"))).mpr (.lambda hform hsegments)
  exact ⟨hclass, hname "feed" hclass⟩

end MethodName

end ValueText
