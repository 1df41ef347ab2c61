/-
  ValueText.Repository.Writing — writing values with the formatters of a repository.

  Some formatters leave part of their work to others, which they find in their
  repository while they write: for the type of a value, for the type inside an
  optional one, for each property of a record.  A desk holds everything that
  this can reach.  A repository can be gone by the time its formatters are used;
  they then write the full name of the type in braces.

  Writing ends because each step goes to a part of the value, or passes the same
  value on to a formatter of lower rank (`Formatter.rank`).

  Main definitions:

    • `Formatter.write`        writes a value with a formatter of either sort;
    • `StaticFormatter.write`  writes a value that is known to be of a host type;
    • `Repository.format`      the text of a value.
-/
import ValueText.Formatter.EnumNames
import ValueText.Repository.Basic

namespace ValueText

/-! ## §1. The weight of a value. -/

mutual

/-- A number that is greater for a value than for the parts formatters take of it. -/
def Value.weight : Value → Nat
  | .option _ (some v) => 1 + v.weight
  | .array _ vs => 1 + Value.weightAll vs
  | .object _ _ _ _ members => 2 + Value.weightMembers members
  | .enumerator _ _ => 2
  | _ => 1

/-- The weight of several values. -/
def Value.weightAll : List Value → Nat
  | [] => 0
  | v :: vs => v.weight + Value.weightAll vs

/-- The weight of named values. -/
def Value.weightMembers : List (String × Option Value) → Nat
  | [] => 0
  | (_, some v) :: ms => v.weight + Value.weightMembers ms
  | (_, none) :: ms => Value.weightMembers ms

end

theorem Value.weight_lookup_le {name : String} {v : Value} :
    ∀ {members : List (String × Option Value)}, members.lookup name = some (some v) →
      v.weight ≤ Value.weightMembers members
  | [], h => by simp at h
  | (n, w) :: ms, h => by
      rw [List.lookup_cons] at h
      split at h
      · simp only [Option.some.injEq] at h
        subst h
        simp [Value.weightMembers]
      · have ih := Value.weight_lookup_le h
        cases w <;> simp only [Value.weightMembers] <;> omega

theorem Property.weight_read?_lt {p : Property} {v w : Value} (h : p.read? v = some w) :
    w.weight < v.weight := by
  unfold Property.read? at h
  split at h
  · split at h
    · next name _ _ _ _ members _ =>
        rw [Option.join_eq_some_iff] at h
        have := Value.weight_lookup_le h
        simp only [Value.weight]
        omega
    · simp only [Option.some.injEq] at h
      subst h
      simp only [Value.weight]
      omega
    · obtain ⟨n, _, rfl⟩ := Option.map_eq_some_iff.mp h
      simp only [Value.weight]
      omega
    · simp only [Option.some.injEq] at h
      subst h
      simp only [Value.weight]
      omega
    · simp at h
  · simp at h

theorem Value.weight_unwrap?_lt {t : HostType} {v w : Value} (h : v.unwrap? t = some w) :
    w.weight < v.weight := by
  unfold Value.unwrap? at h
  split at h
  · split at h
    · subst h
      simp only [Value.weight]
      omega
    · simp at h
  · simp at h

/-! ## §2. The desk. -/

/-- Everything that a formatter can reach while it writes. -/
structure Desk where
  builder : Builder
  catalog : Catalog
  /-- The repository that the formatter belongs to, unless it is gone. -/
  home : Option Repository
  names : EnumNames

/-- Work at a desk, which an overflow error may stop. -/
abbrev DeskWork := ExceptT Overflow (StateM Desk)

namespace Desk

/-- Appends to the builder. -/
def append (w : Writing Unit) : DeskWork Unit := fun d =>
  let (r, b) := w d.builder
  (r, { d with builder := b })

/-- Takes the appends back if any of them did not fit. -/
def atomic (w : DeskWork Unit) : DeskWork Unit := fun d =>
  let (r, after) := w d
  (r, { after with builder := Writing.settle d.builder (Writing.stopped r) after.builder })

/-- The repository's formatter for values of a type, unless the repository is gone. -/
def formatterFor (t : Descriptor) : DeskWork (Option Handle) := fun d =>
  match d.home with
  | none => (.ok none, d)
  | some r =>
      let (h, r) := r.getRuntime t
      (.ok (some h), { d with home := some r })

/-- Whether the repository is gone. -/
def isHomeless : DeskWork Bool := fun d => (.ok d.home.isNone, d)

/-- Pairs a value with its own type. -/
def typed (v : Value) : DeskWork Descriptor := fun d =>
  let (t, c) := d.catalog.runtimeType v
  (.ok t, { d with catalog := c })

/-- The name of an enumeration value. -/
def nameOf (e : EnumShape) (n : Int64) : DeskWork String := fun d =>
  let (s, ns) := d.names.nameOf e n
  (.ok s, { d with names := ns })

/-- A value seen as a host type. -/
def cast? (v : TypedValue) (t : HostType) : DeskWork (Option View) := fun d =>
  (.ok (d.catalog.cast? v t), d)

end Desk

/-! ## §3. What is written without other formatters. -/

/-- The text that a value makes of itself, for a type that has such texts. -/
def TypedValue.ownRendering (v : TypedValue) : Rendering :=
  match v.type.key, v.value with
  | .host t, value =>
      if t = value.type then (value.rendering?).getD ⟨[], .failed⟩ else ⟨[], .failed⟩
  | .named _, _ => ⟨[], .failed⟩

/-- Writes a value of a type without a formatter of its own. -/
def TypedValue.writePlain (v : TypedValue) : Writing Unit :=
  if v.type.facts.hasDisplay then
    match v.ownRendering.result with
    | .ok s => if v.type.kind = .primitive then Writing.text s else Writing.braced s
    | .error failure => Writing.braced failure
  else Writing.braced (({} : NameStyle).render v.type)

/-- Whether a type's values may have a formatter although they are written as
values of some other type. -/
def Descriptor.isPlainData (d : Descriptor) : Bool := d.kind = .struct || d.kind = .primitive

/-! ## §4. Writing. -/

namespace Formatter

/-- Writes the null value. -/
def writeNull : Formatter → Writing Unit
  | .direct _ f => f.writeNull
  | .general (.custom _ writing) => (writing none).run
  | .general _ => Writing.null

mutual

/-- Writes a value with its type. -/
def writeValue (f : Formatter) (v : TypedValue) : DeskWork Unit :=
  match f with
  | .direct t f => do
      match ← Desk.cast? v t with
      | some view => Desk.append (f.writeView view)
      | none => Desk.append (Writing.braced v.type.fullName)
  | .general (.custom _ writing) => Desk.append (writing (some v)).run
  | .general (.enumeration shape) =>
      match v.value.enumerator? shape.type with
      | none => Desk.append (Writing.braced v.type.fullName)
      | some n => do
          let s ← Desk.nameOf shape n
          Desk.append (Writing.text s)
  | .general .fallback => do
      if v.type.isPlainData then
        match ← Desk.formatterFor v.type with
        | some h =>
            if h.kind = .default then Desk.append v.writePlain
            else if _lower : h.formatter.rank < 2 then writeValue h.formatter v
            else Desk.append (Writing.braced v.type.fullName)
        | none => Desk.append v.writePlain
      else Desk.append v.writePlain
  | .general .dynamic => do
      match ← Desk.formatterFor v.type with
      | some h =>
          if _lower : h.formatter.rank < 3 then writeValue h.formatter v
          else Desk.append (Writing.braced v.type.fullName)
      | none => Desk.append (Writing.braced v.type.fullName)
  | .general (.nullable inner) =>
      match v.type.nullable with
      | none => Desk.append (Writing.braced v.type.fullName)
      | some content =>
          match content.key with
          | .named _ => Desk.append Writing.null
          | .host t =>
              match _part : v.value.unwrap? t with
              | none => Desk.append Writing.null
              | some w => do
                  match ← Desk.formatterFor content with
                  | some h => writeValue h.formatter ⟨w, content⟩
                  | none => Desk.append (Writing.braced inner.fullName)
  | .general .anonymous => do
      if ← Desk.isHomeless then Desk.append (Writing.braced v.type.fullName)
      else
        Desk.atomic do
          Desk.append (Writing.text "\x7b ")
          writeProperties v v.type.facts.properties true
termination_by (v.value.weight, f.rank, 0)
decreasing_by
  · exact Prod.Lex.right _ (Prod.Lex.left _ _ (by simpa [rank] using _lower))
  · exact Prod.Lex.right _ (Prod.Lex.left _ _ (by simpa [rank] using _lower))
  · exact Prod.Lex.left _ _ (Value.weight_unwrap?_lt _part)
  · exact Prod.Lex.right _ (Prod.Lex.left _ _ (by simp [rank]))

/-- Writes properties that are not null, and the end of the record; `first`
says that none was written yet. -/
def writeProperties (v : TypedValue) (ps : List Property) (first : Bool) : DeskWork Unit :=
  match ps with
  | [] => Desk.append (if first then Writing.units [0x7D] else Writing.text " \x7d")
  | p :: rest =>
      match _part : p.read? v.value with
      | none => writeProperties v rest first
      | some w => do
          Desk.append (Writing.texts ((if first then [] else [", "]) ++ [p.name, " = "]))
          let t ← Desk.typed w
          match ← Desk.formatterFor t with
          | some h => writeValue h.formatter ⟨w, t⟩
          | none => Desk.append (Writing.braced t.fullName)
          writeProperties v rest false
termination_by (v.value.weight, 0, ps.length)
decreasing_by
  · exact Prod.Lex.right _ (Prod.Lex.right _ (by simp))
  · exact Prod.Lex.right _ (Prod.Lex.right _ (by simp))
  · exact Prod.Lex.left _ _ (Property.weight_read?_lt _part)

end

/-- Writes a value with its type, or null. -/
def write (f : Formatter) : Option TypedValue → DeskWork Unit
  | none => Desk.append f.writeNull
  | some v => f.writeValue v

end Formatter

/-- Writes a value that is known to be of a host type, or null. -/
def StaticFormatter.write (f : StaticFormatter) (v : Option View) : DeskWork Unit :=
  match f, v with
  | .exact f, v => Desk.append (f.write v)
  | .converting f, none => Desk.append f.writeNull
  | .converting f, some v => do
      let t ← Desk.typed v.value
      f.writeValue ⟨v.value, t⟩

/-! ## §5. Texts. -/

namespace Repository

/-- Takes a builder from the pool, or makes one. -/
def rent (r : Repository) : Builder × Repository :=
  match r.pool.take with
  | (some b, p) => (b, { r with pool := p })
  | (none, _) => (.new r.pool.options.builder, r)

/-- Gives a builder back to the pool, which may drop it. -/
def giveBack (r : Repository) (b : Builder) : Repository :=
  match r.pool.fate b with
  | .kept => { r with pool := r.pool.put b.clear }
  | .forgotten | .unsuitable | .crowded => r

/-- What formatting a value answers and leaves behind. -/
structure Formatted where
  answer : Except Overflow String
  repository : Repository
  catalog : Catalog
  names : EnumNames

/-- The text of a value that is seen as the host type `t`, or of null. -/
def format (r : Repository) (c : Catalog) (names : EnumNames) (t : HostType) (v : Option View) :
    Formatted :=
  let (f, r, c) := r.get c t
  let (b, r) := r.rent
  let (answer, d) := (f.write v) ⟨b, c, some r, names⟩
  { answer := answer.map fun _ => d.builder.text
    repository := (d.home.getD r).giveBack d.builder
    catalog := d.catalog
    names := d.names }

end Repository
end ValueText
