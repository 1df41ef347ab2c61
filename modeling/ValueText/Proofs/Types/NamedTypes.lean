/-
  ValueText.Proofs.Types.NamedTypes — types that are known by a name.

  Generic definitions, type parameters, pointers and references have no type of the host.  A name
  is made for each of them, for pointers and references from the full name of their target, and the
  first request with a name decides what every later one is answered with.

      Request        what is asked for, with `key` for its name and `make` for the type
      first rs r     the first request with the name of `r`, or `r` itself
      Call           everything that can be done with a catalogue; `requests` are those of a history

  Declarations never touch a type that is known by a name, so the history of a catalogue tells what
  the answer to a request is.

  Main results:

    • `answers_callAll`   the answer is the type that was made for the first request with the name;
    • `ask_again`         it stays the answer, whatever is done with the catalogue;
    • `derived_types`     so a pointer leads to the type that was asked for, unless an earlier
                          request with the same name was about another one; pointers are told apart
                          by the full names of their targets, and definitions by their dotted names
                          and arities.
-/
import ValueText.Proofs.Text.Numerals
import ValueText.Proofs.Types.Optional

namespace ValueText.Catalog

/-! ## §1. Requests. -/

/-- A name behind its namespace. -/
def dotted (space : Option String) (name : String) : String :=
  match space with
  | some s => s ++ "." ++ name
  | none => name

/-- What is asked for. -/
inductive Request
  | definition (space : Option String) (name : String) (arity : Nat)
  | parameter (name : String)
  | pointer (target : Descriptor)
  | byRef (target : Descriptor)

namespace Request

/-- The name that the type is known by. -/
def key : Request → String
  | .definition space name arity => dotted space (name ++ "`" ++ Numeral.ofNat arity)
  | .parameter name => "!" ++ name
  | .pointer target => target.fullName ++ "*"
  | .byRef target => target.fullName ++ "&"

/-- The type that is made if there is none with that name. -/
def make (r : Request) : Descriptor :=
  match r with
  | .definition space name arity =>
      { facts := { key := .named r.key, name := name ++ "`" ++ Numeral.ofNat arity, space := space,
                   kind := .genericDefinition, arity := arity } }
  | .parameter name =>
      { facts := { key := .named r.key, name := name, kind := .genericParameter } }
  | .pointer target =>
      { facts := { key := .named r.key, name := target.name ++ "*", kind := .pointer }
        element := some target }
  | .byRef target =>
      { facts := { key := .named r.key, name := target.name ++ "&", kind := .byRef }
        element := some target }

@[simp] theorem key_make (r : Request) : r.make.key = .named r.key := by cases r <;> rfl

/-- The first request with the name of `r`, which is `r` itself if there was none before. -/
def first (rs : List Request) (r : Request) : Request := (rs.find? (·.key = r.key)).getD r

@[simp] theorem key_first (rs : List Request) (r : Request) : (first rs r).key = r.key := by
  rw [first]
  cases h : rs.find? (·.key = r.key) with
  | none => rfl
  | some x => simpa using List.find?_some h

/-! ## §2. Names.

They end with a star, an ampersand or a digit, or they start with an exclamation mark. -/

theorem key_definition (space : Option String) (name : String) (arity : Nat) :
    (definition space name arity).key = dotted space name ++ "`" ++ Numeral.ofNat arity := by
  cases space with
  | none => rfl
  | some s => simp [key, dotted, String.append_assoc]

theorem isDigit_of_mem_ofNat {n : Nat} {c : Char} (h : c ∈ (Numeral.ofNat n).toList) :
    c.isDigit := by
  rw [Numeral.ofNat_eq_repr, Nat.repr_eq_ofList_toDigits, String.toList_ofList] at h
  exact Nat.isDigit_of_mem_toDigits (by decide) (by decide) h

theorem getLast?_pointer (d : Descriptor) : (pointer d).key.toList.getLast? = some '*' := by
  simp [key]

theorem getLast?_byRef (d : Descriptor) : (byRef d).key.toList.getLast? = some '&' := by
  simp [key]

theorem getLast?_definition (space : Option String) (name : String) (arity : Nat) :
    ∃ c, (definition space name arity).key.toList.getLast? = some c ∧ c.isDigit := by
  have hne : (Numeral.ofNat arity).toList ≠ [] := by
    rw [Numeral.ofNat, String.toList_ofList]
    simpa using Numeral.digits_ne_nil arity
  refine ⟨_, ?_, isDigit_of_mem_ofNat (List.getLast_mem hne)⟩
  rw [key_definition, String.toList_append, List.getLast?_append_of_ne_nil _ hne,
    List.getLast?_eq_some_getLast hne]

theorem head?_parameter (name : String) : (parameter name).key.toList.head? = some '!' := by
  simp [key]

/-- A name that ends with no digit is that of a parameter, or its end tells what it is. -/
theorem of_getLast? {r : Request} {c : Char} (h : r.key.toList.getLast? = some c)
    (hdigit : c.isDigit = false) :
    (∃ name, r = .parameter name) ∨ (c = '*' ∧ ∃ x, r = .pointer x) ∨
      (c = '&' ∧ ∃ x, r = .byRef x) := by
  cases r with
  | definition space name arity =>
      obtain ⟨c', hlast, hc'⟩ := getLast?_definition space name arity
      rw [h] at hlast
      cases hlast
      rw [hdigit] at hc'
      cases hc'
  | parameter name => exact .inl ⟨name, rfl⟩
  | pointer x =>
      rw [getLast?_pointer] at h
      exact .inr (.inl ⟨(Option.some.inj h).symm, x, rfl⟩)
  | byRef x =>
      rw [getLast?_byRef] at h
      exact .inr (.inr ⟨(Option.some.inj h).symm, x, rfl⟩)

/-- The marker of array types has a name that no request has. -/
theorem key_ne_marker (r : Request) : r.key ≠ "[]" := by
  intro h
  have hlast : r.key.toList.getLast? = some ']' := by
    rw [h]
    rfl
  rcases of_getLast? hlast (by decide) with ⟨name, rfl⟩ | ⟨hc, -⟩ | ⟨hc, -⟩
  · have hhead := head?_parameter name
    rw [h] at hhead
    exact absurd hhead (by decide)
  · exact absurd hc (by decide)
  · exact absurd hc (by decide)

theorem key_pointer_inj {a b : Descriptor} :
    (pointer a).key = (pointer b).key ↔ a.fullName = b.fullName := by
  simp [key, ← String.toList_inj]

theorem key_byRef_inj {a b : Descriptor} :
    (byRef a).key = (byRef b).key ↔ a.fullName = b.fullName := by
  simp [key, ← String.toList_inj]

theorem key_pointer_ne_byRef (a b : Descriptor) : (pointer a).key ≠ (byRef b).key := by
  intro h
  have hlast := getLast?_pointer a
  rw [h, getLast?_byRef] at hlast
  exact absurd hlast (by decide)

theorem not_mark_mem_ofNat (n : Nat) : '\x60' ∉ (Numeral.ofNat n).toList :=
  fun h => absurd (isDigit_of_mem_ofNat h) (by decide)

/-- The last mark separates a name from its arity. -/
theorem append_mark_inj {c : Char} {u u' v v' : List Char} (hv : c ∉ v) (hv' : c ∉ v')
    (h : u ++ c :: v = u' ++ c :: v') : u = u' ∧ v = v' := by
  rcases List.append_eq_append_iff.mp h with ⟨as, rfl, has⟩ | ⟨as, rfl, has⟩
  · cases as with
    | nil => simpa using has
    | cons a as => exact absurd ((List.cons.inj has).2 ▸ by simp) hv
  · cases as with
    | nil => simpa [eq_comm] using has
    | cons a as => exact absurd ((List.cons.inj has).2 ▸ by simp) hv'

theorem key_definition_inj {space space' : Option String} {name name' : String}
    {arity arity' : Nat} :
    (definition space name arity).key = (definition space' name' arity').key ↔
      dotted space name = dotted space' name' ∧ arity = arity' := by
  rw [key_definition, key_definition]
  constructor
  · intro h
    obtain ⟨hname, hnumeral⟩ := append_mark_inj (not_mark_mem_ofNat arity)
      (not_mark_mem_ofNat arity') (by simpa [← String.toList_inj] using h)
    exact ⟨String.toList_inj.mp hname, Numeral.ofNat_inj.mp (String.toList_inj.mp hnumeral)⟩
  · rintro ⟨hname, rfl⟩
    rw [hname]

/-- A pointer leads to the type that was asked for exactly if the first request with its name was
about that type. -/
theorem element_pointer (rs : List Request) (a : Descriptor) :
    (first rs (.pointer a)).make.element.map (·.key) = some a.key ↔
      ∃ x, first rs (.pointer a) = .pointer x ∧ x.key = a.key := by
  have hlast : (first rs (.pointer a)).key.toList.getLast? = some '*' := by
    rw [key_first, getLast?_pointer]
  rcases of_getLast? hlast (by decide) with ⟨name, h⟩ | ⟨-, x, h⟩ | ⟨hc, -⟩
  · simp [h, make]
  · simp [h, make]
  · exact absurd hc (by decide)

/-- So does a reference. -/
theorem element_byRef (rs : List Request) (a : Descriptor) :
    (first rs (.byRef a)).make.element.map (·.key) = some a.key ↔
      ∃ x, first rs (.byRef a) = .byRef x ∧ x.key = a.key := by
  have hlast : (first rs (.byRef a)).key.toList.getLast? = some '&' := by
    rw [key_first, getLast?_byRef]
  rcases of_getLast? hlast (by decide) with ⟨name, h⟩ | ⟨hc, -⟩ | ⟨-, x, h⟩
  · simp [h, make]
  · exact absurd hc (by decide)
  · simp [h, make]

/-- The parts of a definition tell what was asked for. -/
theorem definition_of_make {r : Request} {space : Option String} {name : String} {arity : Nat} :
    (r.make.kind = .genericDefinition ∧ r.make.facts.space = space ∧
        r.make.name = name ++ "`" ++ Numeral.ofNat arity ∧ r.make.facts.arity = arity) ↔
      r = .definition space name arity := by
  constructor
  · rintro ⟨hkind, hspace, hname, harity⟩
    cases r with
    | definition space' name' arity' =>
        obtain rfl : space' = space := hspace
        obtain rfl : arity' = arity := harity
        have hsuffix : name' ++ "`" ++ Numeral.ofNat arity' = name ++ "`" ++ Numeral.ofNat arity' :=
          hname
        obtain rfl : name' = name := by simpa [← String.toList_inj] using hsuffix
        rfl
    | parameter | pointer | byRef => cases hkind
  · rintro rfl
    exact ⟨rfl, rfl, rfl, rfl⟩

end Request

open Request (first)

/-- The answer to a request. -/
def ask (c : Catalog) : Request → Descriptor × Catalog
  | .definition space name arity => c.genericDefinition space name arity
  | .parameter name => c.genericParameter name
  | .pointer target => c.pointerTo target
  | .byRef target => c.byRef target

theorem ask_eq (c : Catalog) (r : Request) :
    c.ask r = match c.get? (.named r.key) with
      | some d => (d, c)
      | none => (r.make, c.insert r.make) := by
  cases r with
  | definition space name arity => cases space <;> rfl
  | parameter | pointer | byRef => rfl

/-! ## §3. Histories. -/

/-- Something that is done with a catalogue. -/
inductive Call
  | typeOf (t : HostType)
  | describe (t : HostType)
  | ask (r : Request)
  | declare (t : HostType) (clauses : List Clause)
  | declareEnumeration (t : HostType) (members : Enumeration.Declared) (clauses : List Clause)
  | declareInterface (t : HostType) (clauses : List Clause)
  | declareNullable (t : HostType)
  | declareArray (t : HostType)

/-- The request that a call is. -/
def Call.request? : Call → Option Request
  | .ask r => some r
  | _ => none

/-- What a call leaves. -/
def call (c : Catalog) : Call → Catalog
  | .typeOf t => (c.typeOf t).2
  | .describe t => (c.describe t).2
  | .ask r => (c.ask r).2
  | .declare t clauses => (c.declare t clauses).2
  | .declareEnumeration t members clauses => (c.declareEnumeration t members clauses).2
  | .declareInterface t clauses => (c.declareInterface t clauses).2
  | .declareNullable t => (c.declareNullable t).2
  | .declareArray t => (c.declareArray t).2

/-- What a history leaves. -/
def callAll (c : Catalog) (calls : List Call) : Catalog := calls.foldl call c

/-- The requests of a history.  The first catalogue knows the definition of optional types, as if it
had been asked for. -/
def requests (calls : List Call) : List Request :=
  .definition (some "System") "Nullable" 1 :: calls.filterMap Call.request?

/-! ## §4. What is known by a name. -/

variable {c c' : Catalog}

/-- The types that are known by a name are the same. -/
def SameNamed (c c' : Catalog) : Prop := ∀ n, c'.get? (.named n) = c.get? (.named n)

namespace SameNamed

theorem refl (c : Catalog) : SameNamed c c := fun _ => rfl

theorem trans {c₁ c₂ c₃ : Catalog} (h : SameNamed c₁ c₂) (h' : SameNamed c₂ c₃) :
    SameNamed c₁ c₃ := fun n => (h' n).trans (h n)

theorem of_types (hc : c'.types = c.types) : SameNamed c c' := fun n => by rw [get?, get?, hc]

theorem insert (c : Catalog) {d : Descriptor} {t : HostType} (hkey : d.key = .host t) :
    SameNamed c (c.insert d) := by
  intro n
  rw [get?_insert, hkey, if_neg nofun]

theorem typeOf (c : Catalog) (t : HostType) : SameNamed c (c.typeOf t).2 := by
  unfold Catalog.typeOf
  split
  · exact .refl c
  · exact .insert c rfl

theorem mentions (clauses : List Clause) : ∀ c : Catalog,
    SameNamed c (clauses.foldl mention c) := by
  induction clauses with
  | nil => exact .refl
  | cons clause rest ih =>
      intro c
      refine SameNamed.trans ?_ (ih (c.mention clause))
      cases clause with
      | nestedIn t | base t | implements t => exact .typeOf c t
      | _ => exact .refl c

/-- **Declarations do not touch types that are known by a name.** -/
theorem published (c : Catalog) (t : HostType) (start : Descriptor) (clauses : List Clause)
    {u : HostType} (hkey : start.key = .host u)
    (hc' : c'.types = ((clauses.foldl mention c).insert
      (Draft.addAll c ⟨t, start, []⟩ clauses).1.descriptor).types) : SameNamed c c' := by
  have hdraft : (Draft.addAll c ⟨t, start, []⟩ clauses).1.descriptor.key = .host u :=
    (addAll_nullable clauses c ⟨t, start, []⟩).2.trans hkey
  exact ((mentions clauses c).trans (.insert _ hdraft)).trans (.of_types hc')

theorem declareFrom (c : Catalog) {start : Descriptor} {t u : HostType} (clauses : List Clause)
    (hkey : start.key = .host u) : SameNamed c (c.declareFrom t start clauses).2 := by
  refine published c t start clauses hkey ?_
  rw [Catalog.declareFrom, types_publish, ← addAll_catalog clauses c ⟨t, start, []⟩]
  rfl

theorem declareInterface (c : Catalog) (t : HostType) (clauses : List Clause) :
    SameNamed c (c.declareInterface t clauses).2 := by
  refine published c t (c.start t .interface) clauses rfl ?_
  rw [Catalog.declareInterface, types_publish, ← addAll_catalog clauses c ⟨t, _, []⟩]

theorem declareNullable (c : Catalog) (t : HostType) : SameNamed c (c.declareNullable t).2 :=
  (SameNamed.typeOf c t).trans (declareFrom (u := .option t) _ [] rfl)

theorem declareArray (c : Catalog) (t : HostType) : SameNamed c (c.declareArray t).2 :=
  (SameNamed.typeOf c t).trans (declareFrom (u := .array t) _ [] rfl)

/-- Only requests change what is known by a name. -/
theorem call (c : Catalog) {k : Call} (h : k.request? = none) : SameNamed c (c.call k) := by
  cases k with
  | ask r => cases h
  | typeOf t => exact .typeOf c t
  | describe t => exact (SameNamed.typeOf c t).trans (.of_types rfl)
  | declare t clauses => exact declareFrom (u := t) c clauses rfl
  | declareEnumeration t members clauses => exact declareFrom (u := t) c clauses rfl
  | declareInterface t clauses => exact declareInterface c t clauses
  | declareNullable t => exact declareNullable c t
  | declareArray t => exact declareArray c t

end SameNamed

/-- The types that are known by a name are those of the requests, the first one with each name.
The marker of array types has a name that no request has. -/
def Answers (rs : List Request) (c : Catalog) : Prop :=
  ∀ n, n ≠ "[]" → c.get? (.named n) = (rs.find? (·.key = n)).map Request.make

theorem Answers.same {rs : List Request} (h : Answers rs c) (hc : SameNamed c c') : Answers rs c' :=
  fun n hn => (hc n).trans (h n hn)

/-- **The first request with a name decides.** -/
theorem Answers.ask_fst {rs : List Request} (h : Answers rs c) (r : Request) :
    (c.ask r).1 = (first rs r).make := by
  rw [ask_eq, first]
  cases hfind : rs.find? (·.key = r.key) with
  | none => rw [h _ r.key_ne_marker, hfind]; rfl
  | some x => rw [h _ r.key_ne_marker, hfind]; rfl

theorem Answers.ask {rs : List Request} (h : Answers rs c) (r : Request) :
    Answers (rs ++ [r]) (c.ask r).2 := by
  intro n hn
  have hr := h _ r.key_ne_marker
  rw [ask_eq, List.find?_append]
  by_cases hkey : r.key = n
  · subst hkey
    cases hfind : rs.find? (·.key = r.key) with
    | none =>
        rw [hr, hfind]
        simp [get?_insert]
    | some x =>
        rw [hr, hfind]
        simpa [hfind] using hr
  · have hother : (c.insert r.make).get? (.named n) = c.get? (.named n) := by
      rw [get?_insert, r.key_make, if_neg fun heq => hkey (TypeKey.named.inj heq)]
    have hnone : [r].find? (·.key = n) = none := by simp [hkey]
    rw [hnone, Option.or_none, ← h n hn]
    split
    · rfl
    · exact hother

/-- **A call adds its request, if it is one** (step). -/
theorem Answers.call {rs : List Request} (h : Answers rs c) (k : Call) :
    Answers (rs ++ k.request?.toList) (c.call k) := by
  cases hk : k.request? with
  | none => simpa using h.same (.call c hk)
  | some r =>
      cases k with
      | ask r' =>
          cases hk
          exact h.ask r
      | _ => cases hk

/-- **A history adds its requests** (run). -/
theorem Answers.callAll (calls : List Call) : ∀ {rs : List Request} {c : Catalog}, Answers rs c →
    Answers (rs ++ calls.filterMap Call.request?) (c.callAll calls) := by
  induction calls with
  | nil => intro rs c h; simpa [Catalog.callAll] using h
  | cons k rest ih =>
      intro rs c h
      have hrest := ih (h.call k)
      rw [Catalog.callAll] at hrest ⊢
      cases hk : k.request? <;> simpa [List.filterMap_cons, hk] using hrest

theorem SameNamed.withPrimitives (ps : List (HostType × String)) : ∀ c : Catalog,
    SameNamed c (ps.foldl (fun c p => c.withPrimitive p.1 p.2) c) := by
  induction ps with
  | nil => exact .refl
  | cons p ps ih =>
      intro c
      exact ((SameNamed.call c (k := .declare p.1 _) rfl).trans
        (SameNamed.call _ (k := .declareNullable p.1) rfl)).trans (ih _)

theorem Answers.withType {rs : List Request} (h : Answers rs c) (t : HostType)
    (clauses : List Clause) : Answers rs (c.withType t clauses) :=
  h.same (.call c (k := .declare t clauses) rfl)

theorem Answers.withNullable {rs : List Request} (h : Answers rs c) (t : HostType) :
    Answers rs (c.withNullable t) :=
  h.same (.declareNullable c t)

/-- The first types of a catalogue: one generic definition and the marker of array types have a
name. -/
theorem answers_markers (spelling : HostSpelling) (parts : Parts) : Answers (requests [])
    (((({ spelling := spelling, parts := parts } : Catalog).insert Descriptor.objectType).insert
      arrayMarker).insert nullableDefinition) := by
  intro n hn
  have hname : "Nullable" ++ "`" ++ Numeral.ofNat 1 = "Nullable`1" := by decide +kernel
  have hmake : (Request.definition (some "System") "Nullable" 1).make = nullableDefinition := by
    simp only [Request.make, Request.key, dotted, hname]
    rfl
  have hobject : Descriptor.objectType.key ≠ .named n := by
    intro h
    cases h
  have harray : arrayMarker.key ≠ .named n := fun h => hn (TypeKey.named.inj h).symm
  rw [get?_insert, get?_insert, if_neg harray, get?_insert, if_neg hobject, ← hmake,
    Request.key_make, requests]
  by_cases hkey : (Request.definition (some "System") "Nullable" 1).key = n
  · rw [List.find?_cons_of_pos (by simpa using hkey), hkey, if_pos rfl]
    rfl
  · rw [List.find?_cons_of_neg (by simpa using hkey), if_neg fun h => hkey (TypeKey.named.inj h)]
    rfl

theorem Answers.withDisplay {rs : List Request} (h : Answers rs c) :
    Answers rs (c.declareInterface .display [.name "IFormattable", .space "System"]).2 :=
  h.same (.declareInterface c _ _)

theorem Answers.withPrimitives {rs : List Request} (h : Answers rs c) :
    Answers rs (primitives.foldl (fun c p => c.withPrimitive p.1 p.2) c) :=
  h.same (.withPrimitives primitives c)

theorem Answers.withText {rs : List Request} (h : Answers rs c) :
    Answers rs ((c.insert
      { facts := { key := .host .text, name := "String", space := some "System" } }).insertLink
        (.host .text) (.host .text) .textIdentity) :=
  (h.same (.insert c rfl)).same (.of_types rfl)

theorem answers_new (spelling : HostSpelling) (parts : Parts) :
    Answers (requests []) (new spelling parts) := by
  have htexts := (answers_markers spelling parts).withDisplay.withPrimitives.withText
  unfold new
  dsimp only
  -- From the last type that is put in to the texts.
  refine Answers.withType ?_ .method _
  refine Answers.withType ?_ .typeInfo _
  refine Answers.withNullable ?_ .uuid
  refine Answers.withType ?_ .uuid _
  refine Answers.withNullable ?_ .time
  refine Answers.withType ?_ .time _
  refine Answers.withNullable ?_ .duration
  refine Answers.withType ?_ .duration _
  refine Answers.withType ?_ .string _
  exact htexts

/-- **The answer to a request is the type that was made for the first request with its name.** -/
theorem answers_callAll (spelling : HostSpelling) (parts : Parts) (calls : List Call)
    (r : Request) :
    (((new spelling parts).callAll calls).ask r).1 = (first (requests calls) r).make :=
  Answers.ask_fst ((answers_new spelling parts).callAll calls) r

/-- **What was answered once is answered again**, whatever comes between. -/
theorem ask_again (spelling : HostSpelling) (parts : Parts) (before after : List Call)
    (r : Request) :
    (((((new spelling parts).callAll before).ask r).2.callAll after).ask r).1 =
      (((new spelling parts).callAll before).ask r).1 := by
  have hanswers := (answers_new spelling parts).callAll before
  rw [((hanswers.ask r).callAll after).ask_fst r, hanswers.ask_fst r, first, first,
    List.append_assoc, List.find?_append]
  cases List.find? (fun x => x.key = r.key) (requests [] ++ before.filterMap Call.request?) with
  | none => simp
  | some x => simp

/-! ## §5. Which type is answered. -/

/-- The catalogue that a history leaves. -/
def after (spelling : HostSpelling) (parts : Parts) (calls : List Call) : Catalog :=
  (new spelling parts).callAll calls

theorem same_ask (spelling : HostSpelling) (parts : Parts) (before before' : List Call)
    (r r' : Request) :
    ((after spelling parts before).ask r).1.same ((after spelling parts before').ask r').1 = true ↔
      r.key = r'.key := by
  rw [after, after, answers_callAll, answers_callAll, Descriptor.same, decide_eq_true_iff,
    Request.key_make, Request.key_make, Request.key_first, Request.key_first]
  exact ⟨TypeKey.named.inj, congrArg _⟩

/-- **Types that are known by a name.**  A pointer or a reference leads to the type that was asked
for exactly if the first request with its name was a pointer or a reference to that type; and a
definition has the namespace, the name and the arity that were asked for exactly if the first
request with its name was the same.  At any two moments, pointers are the same type exactly if
their targets have the same full name, and so are references; no pointer is a reference; and
definitions are the same exactly if their arities and their dotted names are. -/
theorem derived_types (spelling : HostSpelling) (parts : Parts) (before : List Call) :
    (∀ a, ((after spelling parts before).pointerTo a).1.element.map (·.key) = some a.key ↔
      ∃ x, first (requests before) (.pointer a) = .pointer x ∧ x.key = a.key) ∧
    (∀ a, ((after spelling parts before).byRef a).1.element.map (·.key) = some a.key ↔
      ∃ x, first (requests before) (.byRef a) = .byRef x ∧ x.key = a.key) ∧
    (∀ space name arity,
      let d := ((after spelling parts before).genericDefinition space name arity).1
      (d.kind = .genericDefinition ∧ d.facts.space = space ∧
          d.name = name ++ "`" ++ Numeral.ofNat arity ∧ d.facts.arity = arity) ↔
        first (requests before) (.definition space name arity) = .definition space name arity) ∧
    ∀ before' : List Call,
      (∀ a b, ((after spelling parts before).pointerTo a).1.same
          ((after spelling parts before').pointerTo b).1 = true ↔ a.fullName = b.fullName) ∧
      (∀ a b, ((after spelling parts before).byRef a).1.same
          ((after spelling parts before').byRef b).1 = true ↔ a.fullName = b.fullName) ∧
      (∀ a b, ((after spelling parts before).pointerTo a).1.same
          ((after spelling parts before').byRef b).1 = false) ∧
      ∀ space name arity space' name' arity',
        ((after spelling parts before).genericDefinition space name arity).1.same
            ((after spelling parts before').genericDefinition space' name' arity').1 = true ↔
          dotted space name = dotted space' name' ∧ arity = arity' := by
  have hanswer (r : Request) := answers_callAll spelling parts before r
  refine ⟨fun a => ?_, fun a => ?_, fun space name arity => ?_, fun before' => ⟨fun a b => ?_,
    fun a b => ?_, fun a b => ?_, fun space name arity space' name' arity' => ?_⟩⟩
  · rw [← Request.element_pointer, ← hanswer]
    rfl
  · rw [← Request.element_byRef, ← hanswer]
    rfl
  · rw [← Request.definition_of_make, ← hanswer]
    rfl
  · exact (same_ask spelling parts before before' (.pointer a) (.pointer b)).trans
      Request.key_pointer_inj
  · exact (same_ask spelling parts before before' (.byRef a) (.byRef b)).trans Request.key_byRef_inj
  · have hsame := same_ask spelling parts before before' (.pointer a) (.byRef b)
    exact Bool.eq_false_iff.mpr fun h => Request.key_pointer_ne_byRef a b (hsame.mp h)
  · exact (same_ask spelling parts before before' (.definition space name arity)
      (.definition space' name' arity')).trans Request.key_definition_inj

/-- Borrowed text and text have one full name.  A pointer to the second leads to the first, if a
pointer to that was asked for before, and is the same type as that one.  Two definitions are the
same if one has a dot in its name where the other one has its namespace. -/
theorem pointer_text_string :
    let c := new shortPaths
    let text := (c.typeOf .text).1
    let string := (c.typeOf .string).1
    let later := (c.pointerTo text).2
    text.same string = false ∧ (later.pointerTo string).1.same (c.pointerTo text).1 = true ∧
      (later.pointerTo string).1.element.map (·.key) = some text.key ∧
      (c.genericDefinition none "A.B" 1).1.same (c.genericDefinition (some "A") "B" 1).1 =
        true := by
  decide +kernel

end ValueText.Catalog
