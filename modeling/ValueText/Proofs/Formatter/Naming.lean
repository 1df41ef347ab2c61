/-
  ValueText.Proofs.Formatter.Naming — formatters of enumerations in one thread.

  A formatter looks a value up in two tables: its own one, which it built from the
  declared names, and the one that all formatters of the thread share.  The first is
  filled in the order of the declarations and never overwritten, so it has the first name
  of a value.  In the second, a text stands under the type and the value that it was made
  from.  Together they answer what a formatter without tables would.

  Main results:

    • `get?_names`              the table of a formatter has the first declared names;
    • `Faithful.call`           what a single call makes of the thread;
    • `names_uncached`          any calls are answered as without tables, and no text is
                                made twice.
-/
import ValueText.Formatter.EnumNames

namespace ValueText

open Enumeration (Declared Member named? defaultText)

/-! ## §1. The table of a formatter. -/

namespace EnumFormatter

/-- **The table of a formatter has the first declared names.** -/
theorem get?_names (e : EnumShape) (text : Int64 → String) (n : Int64) :
    (new e text).names.get? n = (named? e.declared.members n).map (·.name) := by
  have hfold : ∀ (ms : List Member) (names : Table Int64 String),
      (ms.foldl (fun names m => names.insertNew m.value m.name) names).get? n =
        (names.get? n).or ((named? ms n).map (·.name)) := by
    -- Induction on the members.  A name that is there already stays, whatever comes later.
    intro ms
    induction ms with
    | nil => intro names; simp [named?]
    | cons m ms ih =>
        intro names
        rw [List.foldl_cons, ih, Table.get?_insertNew]
        simp only [named?, List.find?_cons]
        by_cases hvalue : m.value = n
        · subst hvalue
          cases names.get? m.value <;> simp
        · simp [hvalue]
  rw [new, hfold, Table.get?_empty, Option.none_or]

end EnumFormatter

/-! ## §2. Enumerations and calls. -/

/-- What the types of a program declare, and how they write values without a name. -/
structure Enumerations where
  declared : HostType → Declared
  text : HostType → Int64 → String

/-- What a program does with the formatters of a thread. -/
inductive NameCall
  /-- Makes a formatter for a type. -/
  | make (t : HostType)
  /-- Asks one of the formatters for the text of a value. -/
  | name (formatter : Nat) (n : Int64)

/-- The formatters in the order in which they were made, and the texts they share. -/
structure NameThread where
  formatters : List EnumFormatter := []
  names : EnumNames := {}

namespace Enumerations

variable (E : Enumerations)

/-- The formatter of a type. -/
def formatter (t : HostType) : EnumFormatter := .new ⟨t, E.declared t⟩ (E.text t)

/-- The text of a value without any table. -/
def plain (t : HostType) (n : Int64) : String :=
  match named? (E.declared t).members n with
  | some m => m.name
  | none => E.text t n

/-- A call in a thread. -/
def call (s : NameThread) : NameCall → Option String × NameThread
  | .make t => (none, { s with formatters := s.formatters ++ [E.formatter t] })
  | .name i n =>
      match s.formatters[i]? with
      | none => (none, s)
      | some f => (some (s.names.nameBy f n).1, { s with names := (s.names.nameBy f n).2 })

/-- The answers to a sequence of calls. -/
def calls (s : NameThread) : List NameCall → List (Option String) × NameThread
  | [] => ([], s)
  | q :: qs =>
      let (answer, s) := E.call s q
      let (answers, s) := calls s qs
      (answer :: answers, s)

theorem calls_cons (s : NameThread) (q : NameCall) (qs : List NameCall) :
    E.calls s (q :: qs) =
      ((E.call s q).1 :: (E.calls (E.call s q).2 qs).1, (E.calls (E.call s q).2 qs).2) := rfl

/-! ## §3. The same calls without tables. -/

/-- The types of the formatters that there are after a call. -/
def typesAfter (types : List HostType) : NameCall → List HostType
  | .make t => types ++ [t]
  | .name _ _ => types

/-- The answer to a call if no text is kept. -/
def plainAnswer (types : List HostType) : NameCall → Option String
  | .make _ => none
  | .name i n => types[i]?.map (E.plain · n)

def plainAnswers (types : List HostType) : List NameCall → List (Option String)
  | [] => []
  | q :: qs => E.plainAnswer types q :: plainAnswers (typesAfter types q) qs

/-- The type and the value that a call asks for. -/
def asked (types : List HostType) : NameCall → Option (HostType × Int64)
  | .make _ => none
  | .name i n => types[i]?.map fun t => (t, n)

/-- All types and values that are asked for. -/
def allAsked (types : List HostType) : List NameCall → List (HostType × Int64)
  | [] => []
  | q :: qs => (asked types q).toList ++ allAsked (typesAfter types q) qs

/-! ## §4. The three ways to a text. -/

section Ways

variable {E} {t : HostType} {n : Int64} (ns : EnumNames)

theorem nameBy_of_named {m : Member} (h : named? (E.declared t).members n = some m) :
    ns.nameBy (E.formatter t) n = (m.name, ns) := by
  rw [EnumNames.nameBy, formatter, EnumFormatter.get?_names, h]
  rfl

theorem nameBy_of_kept {x : String} (h : named? (E.declared t).members n = none)
    (hx : ns.kept.get? (t, n) = some x) : ns.nameBy (E.formatter t) n = (x, ns) := by
  have hget : ns.kept.get? ((E.formatter t).type, n) = some x := hx
  rw [EnumNames.nameBy, formatter, EnumFormatter.get?_names, h, Option.map_none, ← formatter, hget]

theorem nameBy_of_new (h : named? (E.declared t).members n = none)
    (hx : ns.kept.get? (t, n) = none) :
    ns.nameBy (E.formatter t) n =
      (E.text t n, ⟨ns.kept.set (t, n) (E.text t n), ns.made ++ [(t, n)]⟩) := by
  have hget : ns.kept.get? ((E.formatter t).type, n) = none := hx
  rw [EnumNames.nameBy, formatter, EnumFormatter.get?_names, h, Option.map_none, ← formatter, hget]
  rfl

end Ways

/-! ## §5. What the thread keeps. -/

/-- The formatters are those of `types`, and for exactly the nameless of `pairs` a text was
made and is kept. -/
structure Faithful (types : List HostType) (pairs : List (HostType × Int64)) (s : NameThread) :
    Prop where
  formatters : s.formatters = types.map E.formatter
  kept : ∀ t n x, s.names.kept.get? (t, n) = some x → x = E.text t n
  made : ∀ p, p ∈ s.names.made ↔ (s.names.kept.get? p).isSome
  nodup : s.names.made.Nodup
  asked : ∀ t n, (t, n) ∈ s.names.made ↔
    (t, n) ∈ pairs ∧ named? (E.declared t).members n = none

variable {E} {types : List HostType} {pairs : List (HostType × Int64)} {s : NameThread}

theorem faithful_new : Faithful E [] [] {} where
  formatters := rfl
  kept := fun _ _ _ h => nomatch h
  made := fun p => by simp
  nodup := List.nodup_nil
  asked := by simp

namespace Faithful

/-- What has a name or a text already may be asked for. -/
theorem again (h : Faithful E types pairs s) {t : HostType} {n : Int64}
    (hold : named? (E.declared t).members n = none → (t, n) ∈ s.names.made) :
    Faithful E types (pairs ++ [(t, n)]) s := by
  refine ⟨h.formatters, h.kept, h.made, h.nodup, fun t' n' => ?_⟩
  rw [List.mem_append, List.mem_singleton, Prod.mk.injEq]
  constructor
  · intro hmade
    obtain ⟨hpair, hnone⟩ := (h.asked t' n').mp hmade
    exact ⟨.inl hpair, hnone⟩
  · rintro ⟨hpair | ⟨rfl, rfl⟩, hnone⟩
    · exact (h.asked t' n').mpr ⟨hpair, hnone⟩
    · exact hold hnone

/-- A text that was not there is made and kept. -/
theorem keep (h : Faithful E types pairs s) {t : HostType} {n : Int64}
    (hm : named? (E.declared t).members n = none) (hx : s.names.kept.get? (t, n) = none) :
    Faithful E types (pairs ++ [(t, n)])
      { s with names := ⟨s.names.kept.set (t, n) (E.text t n), s.names.made ++ [(t, n)]⟩ } := by
  refine ⟨h.formatters, fun t' n' x hx' => ?_, fun p => ?_, ?_, fun t' n' => ?_⟩
  · rw [Table.get?_set] at hx'
    split at hx'
    · next heq =>
        injection heq with ht hn
        injection hx' with hx'
        rw [← hx', ht, hn]
    · exact h.kept t' n' x hx'
  · rw [Table.get?_set, List.mem_append, List.mem_singleton, h.made]
    by_cases hp : (t, n) = p
    · simp [hp]
    · rw [if_neg hp]
      exact or_iff_left fun he => hp he.symm
  · refine List.nodup_append.mpr ⟨h.nodup, List.pairwise_singleton _ _, fun p hp q hq heq => ?_⟩
    rw [List.mem_singleton.mp hq] at heq
    rw [heq, h.made, hx] at hp
    exact Bool.false_ne_true hp
  · rw [List.mem_append, List.mem_append, List.mem_singleton, h.asked, Prod.mk.injEq]
    constructor
    · rintro (⟨hpair, hnone⟩ | ⟨rfl, rfl⟩)
      · exact ⟨.inl hpair, hnone⟩
      · exact ⟨.inr ⟨rfl, rfl⟩, hm⟩
    · rintro ⟨hpair | heq, hnone⟩
      · exact .inl ⟨hpair, hnone⟩
      · exact .inr heq

/-- The text of a formatter is the one without tables. -/
theorem nameBy (h : Faithful E types pairs s) (t : HostType) (n : Int64) :
    (s.names.nameBy (E.formatter t) n).1 = E.plain t n ∧
      Faithful E types (pairs ++ [(t, n)])
        { s with names := (s.names.nameBy (E.formatter t) n).2 } := by
  unfold plain
  -- A declared name, a text that is kept, or one that is made now.
  cases hm : named? (E.declared t).members n with
  | some m =>
      rw [nameBy_of_named s.names hm]
      exact ⟨rfl, h.again fun hnone => nomatch hm.symm.trans hnone⟩
  | none =>
      cases hx : s.names.kept.get? (t, n) with
      | some x =>
          rw [nameBy_of_kept s.names hm hx]
          exact ⟨h.kept t n x hx, h.again fun _ => (h.made _).mpr (by rw [hx]; rfl)⟩
      | none =>
          rw [nameBy_of_new s.names hm hx]
          exact ⟨rfl, h.keep hm hx⟩

/-- **A call is answered as without tables, and the thread stays faithful.** -/
theorem call (h : Faithful E types pairs s) (q : NameCall) :
    (E.call s q).1 = E.plainAnswer types q ∧
      Faithful E (typesAfter types q) (pairs ++ (Enumerations.asked types q).toList)
        (E.call s q).2 := by
  cases q with
  | make t =>
      refine ⟨rfl, ?_, h.kept, h.made, h.nodup, ?_⟩
      · show s.formatters ++ [E.formatter t] = (types ++ [t]).map E.formatter
        rw [h.formatters, List.map_append]
        rfl
      · rw [Enumerations.asked, Option.toList_none, List.append_nil]
        exact h.asked
  | name i n =>
      have hget : s.formatters[i]? = types[i]?.map E.formatter := by
        rw [h.formatters, List.getElem?_map]
      unfold Enumerations.call plainAnswer Enumerations.asked typesAfter
      dsimp only
      rw [hget]
      cases types[i]? with
      | none => exact ⟨rfl, by rwa [Option.map_none, Option.toList_none, List.append_nil]⟩
      | some t =>
          obtain ⟨hname, hfaithful⟩ := h.nameBy t n
          exact ⟨congrArg some hname, hfaithful⟩

/-- Any calls are answered as without tables. -/
theorem calls (h : Faithful E types pairs s) (qs : List NameCall) :
    (E.calls s qs).1 = E.plainAnswers types qs ∧
      ∃ types', Faithful E types' (pairs ++ allAsked types qs) (E.calls s qs).2 := by
  -- Induction on the calls, with `Faithful.call` for the first of them.
  induction qs generalizing types pairs s with
  | nil => exact ⟨rfl, types, by rwa [allAsked, List.append_nil]⟩
  | cons q qs ih =>
      obtain ⟨hanswer, hstep⟩ := h.call q
      obtain ⟨hanswers, types', hrest⟩ := ih hstep
      rw [calls_cons, plainAnswers, allAsked, ← List.append_assoc]
      exact ⟨by rw [hanswer, hanswers], types', hrest⟩

end Faithful

/-! ## §6. The answers. -/

/-- The default text has the declared names already. -/
theorem plain_of_default {t : HostType}
    (h : ∀ n, E.text t n = defaultText (E.declared t).members (E.declared t).flags n) (n : Int64) :
    E.plain t n = defaultText (E.declared t).members (E.declared t).flags n := by
  unfold plain
  rw [h n]
  unfold defaultText
  cases named? (E.declared t).members n <;> rfl

/-- **However the formatters of a thread are made and asked, each answer is the first name
declared with the value, or the text of the type for it; for a type that writes default texts
it is the default text.  The texts that are made are those of the types and values that are
asked for and have no name, each of them once.** -/
theorem names_uncached (E : Enumerations) (qs : List NameCall) :
    (E.calls {} qs).1 = E.plainAnswers [] qs ∧
    (∀ t, (∀ n, E.text t n = defaultText (E.declared t).members (E.declared t).flags n) →
      ∀ n, E.plain t n = defaultText (E.declared t).members (E.declared t).flags n) ∧
    (E.calls {} qs).2.names.made.Nodup ∧
    ∀ t n, (t, n) ∈ (E.calls {} qs).2.names.made ↔
      (t, n) ∈ allAsked [] qs ∧ ∀ m ∈ (E.declared t).members, m.value ≠ n := by
  obtain ⟨hanswers, types', hfaithful⟩ := (faithful_new (E := E)).calls qs
  refine ⟨hanswers, fun t => plain_of_default, hfaithful.nodup, fun t n => ?_⟩
  rw [hfaithful.asked, List.nil_append]
  simp [named?]

/-- A type with default texts. -/
def access : Enumerations where
  declared _ := ⟨[⟨"None", 0⟩, ⟨"Read", 1⟩, ⟨"Write", 2⟩, ⟨"Look", 1⟩], true⟩
  text _ := defaultText [⟨"None", 0⟩, ⟨"Read", 1⟩, ⟨"Write", 2⟩, ⟨"Look", 1⟩] true

/-- Two formatters of the type share the text of a value without a name. -/
theorem names_access :
    (access.calls {} [.make .bool, .name 0 3, .make .bool, .name 1 1, .name 1 3]).1 =
      [none, some "Read, Write", none, some "Read", some "Read, Write"] ∧
    (∀ n, access.text .bool n =
      defaultText (access.declared .bool).members (access.declared .bool).flags n) ∧
    access.plain .bool 3 = defaultText (access.declared .bool).members true 3 ∧
    (.bool, 3) ∈
      (access.calls {} [.make .bool, .name 0 3, .make .bool, .name 1 1, .name 1 3]).2.names.made := by
  obtain ⟨hanswers, hdefault, -, hmade⟩ := names_uncached access
    [.make .bool, .name 0 3, .make .bool, .name 1 1, .name 1 3]
  refine ⟨hanswers.trans (by decide +kernel), fun _ => rfl, hdefault .bool (fun _ => rfl) 3, ?_⟩
  exact (hmade .bool 3).mpr (by decide)

end Enumerations
end ValueText
