/-
  ValueText.Proofs.Types.Optional — the type inside an optional type is known.

  The descriptor of an optional type holds the descriptor of the type inside.  In an
  orderly catalogue the type inside keeps that descriptor, because it is never declared
  again; for the types of the first catalogue this is seen from their keys, which differ.

  Main result: `Orderly.optional`.
-/
import ValueText.Proofs.Types.Orderly

namespace ValueText.Catalog

open Descriptor (objectType)

variable {c c' : Catalog} {d : Descriptor}

/-- The type inside a known optional type is known. -/
def Optional (c : Catalog) : Prop :=
  ∀ d content, Known c d → d.nullable = some content → Known c content

/-! ## §1. What keeps it. -/

theorem Optional.of_types (h : Optional c) (hc : c'.types = c.types) : Optional c' := by
  have hknown (x : Descriptor) : Known c' x ↔ Known c x := by rw [Known, Known, get?, get?, hc]
  intro d content hd hn
  exact (hknown content).mpr (h d content ((hknown d).mp hd) hn)

theorem Optional.insert (h : Optional c) (hnew : c.get? d.key = none)
    (hd : ∀ content, d.nullable = some content → Known c content) : Optional (c.insert d) := by
  have hgrows := grows_insert hnew
  intro x content hx hn
  rw [Known, get?_insert] at hx
  split at hx
  · cases hx
    exact hgrows _ (hd content hn)
  · exact hgrows _ (h x content hx hn)

theorem Optional.typeOf (h : Optional c) (t : HostType) : Optional (c.typeOf t).2 := by
  unfold Catalog.typeOf
  split
  · exact h
  · next hn => exact h.insert hn nofun

theorem Optional.named (h : Optional c) {key : String} {make : TypeKey → Descriptor}
    (hkey : (make (.named key)).key = .named key) (hn : (make (.named key)).nullable = none) :
    Optional (c.named key make).2 := by
  unfold Catalog.named
  split
  · exact h
  · next hnew =>
      rw [← hkey] at hnew
      exact h.insert hnew fun content he => by rw [hn] at he; cases he

theorem Optional.mentions (clauses : List Clause) : ∀ {c : Catalog}, Optional c →
    Optional (clauses.foldl mention c) := by
  induction clauses with
  | nil => exact fun h => h
  | cons clause rest ih =>
      intro c h
      apply ih
      unfold mention
      split
      · exact h.typeOf _
      · exact h.typeOf _
      · exact h.typeOf _
      · exact h

/-- What clauses leave as it is. -/
theorem addAll_nullable (clauses : List Clause) : ∀ (c : Catalog) (d : Draft),
    (d.addAll c clauses).1.descriptor.nullable = d.descriptor.nullable ∧
      (d.addAll c clauses).1.descriptor.key = d.descriptor.key := by
  induction clauses with
  | nil => intro c d; exact ⟨rfl, rfl⟩
  | cons clause rest ih =>
      intro c d
      have hadd : (d.add c clause).1.descriptor.nullable = d.descriptor.nullable ∧
          (d.add c clause).1.descriptor.key = d.descriptor.key := by
        cases clause <;> exact ⟨rfl, rfl⟩
      obtain ⟨hn, hkey⟩ := ih (d.add c clause).2 (d.add c clause).1
      exact ⟨hn.trans hadd.1, hkey.trans hadd.2⟩

/-- A new type is published with the clauses of its declaration. -/
theorem Optional.published (h : Optional c) (start : Descriptor) {clauses : List Clause}
    {t : HostType} (hnew : (clauses.foldl mention c).get? start.key = none)
    (hstart : ∀ content, start.nullable = some content →
      Known (clauses.foldl mention c) content)
    (hc' : c'.types = ((clauses.foldl mention c).insert
      (Draft.addAll c ⟨t, start, []⟩ clauses).1.descriptor).types) : Optional c' := by
  obtain ⟨hn, hkey⟩ := addAll_nullable clauses c ⟨t, start, []⟩
  refine ((Optional.mentions clauses h).insert ?_ ?_).of_types hc'
  · rw [hkey]
    exact hnew
  · rw [hn]
    exact hstart

theorem Optional.declareFrom (h : Optional c) {t : HostType} {start : Descriptor}
    {clauses : List Clause} (hnew : (clauses.foldl mention c).get? start.key = none)
    (hstart : ∀ content, start.nullable = some content →
      Known (clauses.foldl mention c) content) : Optional (c.declareFrom t start clauses).2 := by
  refine h.published start (t := t) hnew hstart ?_
  rw [Catalog.declareFrom, types_publish, ← addAll_catalog clauses c ⟨t, start, []⟩]
  rfl

theorem Optional.declareInterface (h : Optional c) {t : HostType} {clauses : List Clause}
    (hnew : (clauses.foldl mention c).get? (.host t) = none) :
    Optional (c.declareInterface t clauses).2 := by
  refine h.published (c.start t .interface) (t := t) hnew nofun ?_
  rw [Catalog.declareInterface, types_publish, ← addAll_catalog clauses c ⟨t, _, []⟩]

/-! ## §2. The first catalogue. -/

/-- The catalogue is one of those that the first one is made of.  It has types under just
the keys of the list, and the types inside its optional types are known. -/
structure Early (ks : List TypeKey) (c : Catalog) : Prop where
  keys : ∀ k, (c.get? k).isSome = true ↔ k ∈ ks
  keyed : ∀ k d, c.get? k = some d → d.key = k
  optional : Optional c

variable {ks : List TypeKey}

theorem Early.unknown (h : Early ks c) {k : TypeKey} (hk : k ∉ ks) : c.get? k = none := by
  cases hget : c.get? k with
  | none => rfl
  | some d => exact absurd ((h.keys k).mp (by rw [hget]; rfl)) hk

theorem Early.of_types (h : Early ks c) (hc : c'.types = c.types) : Early ks c' := by
  have hget (k : TypeKey) : c'.get? k = c.get? k := by rw [get?, get?, hc]
  refine ⟨fun k => ?_, fun k d hd => ?_, h.optional.of_types hc⟩
  · rw [hget]
    exact h.keys k
  · rw [hget] at hd
    exact h.keyed k d hd

theorem Early.insert (h : Early ks c) (hnew : d.key ∉ ks)
    (hd : ∀ content, d.nullable = some content → Known c content) :
    Early (d.key :: ks) (c.insert d) := by
  refine ⟨fun k => ?_, fun k x hx => ?_, h.optional.insert (h.unknown hnew) hd⟩
  · rw [get?_insert, List.mem_cons, ← h.keys k]
    split
    · next he => exact ⟨fun _ => .inl he.symm, fun _ => rfl⟩
    · next hne => exact ⟨.inr, fun hk => hk.resolve_left fun he => hne he.symm⟩
  · rw [get?_insert] at hx
    split at hx
    · next he => cases hx; exact he
    · exact h.keyed k x hx

/-- A declaration that names no other type. -/
theorem Early.published (h : Early ks c) {t : HostType} (start : Descriptor)
    {clauses : List Clause} (hs : clauses.all Clause.isFact = true) (hnew : start.key ∉ ks)
    (hstart : ∀ content, start.nullable = some content → Known c content)
    (hc' : c'.types = ((Draft.addAll c ⟨t, start, []⟩ clauses).2.insert
      (Draft.addAll c ⟨t, start, []⟩ clauses).1.descriptor).types) :
    Early (start.key :: ks) c' := by
  have hsame := (sameShape_addAll (c := c) (d := ⟨t, start, []⟩) clauses hs).catalog
  obtain ⟨hnullable, hkey⟩ := addAll_nullable clauses c ⟨t, start, []⟩
  have hkey : (Draft.addAll c ⟨t, start, []⟩ clauses).1.descriptor.key = start.key := hkey
  have hinsert := h.insert (d := (Draft.addAll c ⟨t, start, []⟩ clauses).1.descriptor)
    (by rw [hkey]; exact hnew) (by rw [hnullable]; exact hstart)
  rw [hkey] at hinsert
  refine hinsert.of_types ?_
  rw [hc', hsame]

theorem Early.declareFrom (h : Early ks c) {t : HostType} (start : Descriptor)
    {clauses : List Clause} (hs : clauses.all Clause.isFact = true) (hnew : start.key ∉ ks)
    (hstart : ∀ content, start.nullable = some content → Known c content) :
    Early (start.key :: ks) (c.declareFrom t start clauses).2 := by
  refine h.published (t := t) start hs hnew hstart ?_
  rw [Catalog.declareFrom, types_publish]
  rfl

theorem Early.declareInterface (h : Early ks c) {t : HostType} {clauses : List Clause}
    (hs : clauses.all Clause.isFact = true) (hnew : .host t ∉ ks) :
    Early (.host t :: ks) (c.declareInterface t clauses).2 := by
  refine h.published (t := t) (c.start t .interface) hs hnew nofun ?_
  rw [Catalog.declareInterface, types_publish]

theorem Early.insertLink (h : Early ks c) (s t : TypeKey) (l : Link) :
    Early ks (c.insertLink s t l) := h.of_types rfl

theorem Early.withType (h : Early ks c) (t : HostType) (clauses : List Clause)
    (hs : clauses.all Clause.isFact = true) (hnew : .host t ∉ ks) :
    Early (.host t :: ks) (c.withType t clauses) :=
  h.declareFrom (c.start t .reference) hs hnew nofun

/-- The descriptor that an optional type is declared with. -/
def optionalType (inner : Descriptor) (t : HostType) : Descriptor :=
  { facts := { key := .host (.option t), name := nullableDefinition.name, space := some "System",
               kind := .struct }
    definition := some nullableDefinition
    arguments := [inner]
    nullable := some inner }

theorem Early.withNullable (h : Early ks c) {t : HostType} (ht : .host t ∈ ks)
    (hnew : .host (.option t) ∉ ks) : Early (.host (.option t) :: ks) (c.withNullable t) := by
  obtain ⟨d, hd⟩ := Option.isSome_iff_exists.mp ((h.keys _).mpr ht)
  have htypeOf : c.typeOf t = (d, c) := by
    unfold Catalog.typeOf
    rw [hd]
  have hknown : Known c d := by rw [Known, h.keyed _ _ hd]; exact hd
  have hstart : ∀ content, (optionalType d t).nullable = some content → Known c content := by
    intro content he
    cases he
    exact hknown
  have hdeclared : Early (.host (.option t) :: ks)
      (c.declareFrom (.option t) (optionalType d t) []).2 :=
    h.declareFrom (optionalType d t) rfl hnew hstart
  unfold Catalog.withNullable declareNullable
  rw [htypeOf]
  exact hdeclared

/-- The keys that a primitive type and its optional type add. -/
def withPrimitiveKeys (ks : List TypeKey) (p : HostType × String) : List TypeKey :=
  .host (.option p.1) :: .host p.1 :: ks

theorem suffix_withPrimitiveKeys (ps : List (HostType × String)) : ∀ ks : List TypeKey,
    ks <:+ ps.foldl withPrimitiveKeys ks := by
  induction ps with
  | nil => exact fun ks => List.suffix_refl ks
  | cons p ps ih =>
      intro ks
      have hfirst : ks <:+ withPrimitiveKeys ks p := ⟨[_, _], rfl⟩
      exact hfirst.trans (ih _)

/-- Primitive types whose keys differ from each other and from those before. -/
theorem Early.withPrimitives (ps : List (HostType × String)) :
    ∀ {ks : List TypeKey} {c : Catalog}, Early ks c →
      (ps.foldl withPrimitiveKeys ks).Nodup →
      Early (ps.foldl withPrimitiveKeys ks) (ps.foldl (fun c p => c.withPrimitive p.1 p.2) c) := by
  induction ps with
  | nil => intro ks c h _; exact h
  | cons p ps ih =>
      intro ks c h hnodup
      have hfirst := hnodup.sublist (suffix_withPrimitiveKeys ps _).sublist
      obtain ⟨hoption, hrest⟩ := List.nodup_cons.mp hfirst
      obtain ⟨hplain, -⟩ := List.nodup_cons.mp hrest
      have htype := h.withType p.1 [.name p.2, .space "System", .primitive, .displayable] rfl hplain
      exact ih (htype.withNullable List.mem_cons_self hoption) hnodup

/-- The keys of the object type, the markers and the type of displayable things. -/
def firstKeys : List TypeKey :=
  [.host .display, .named "System.Nullable`1", .named "[]", .host .object]

theorem early_first (spelling : HostSpelling) (parts : Parts) : Early firstKeys
    (((({ spelling := spelling, parts := parts } : Catalog).insert objectType).insert
      arrayMarker).insert nullableDefinition
        |>.declareInterface .display [.name "IFormattable", .space "System"]).2 := by
  have hempty : Early [] ({ spelling := spelling, parts := parts } : Catalog) :=
    ⟨fun k => ⟨nofun, nofun⟩, nofun, nofun⟩
  have hobject := hempty.insert (d := objectType) (by decide) nofun
  have hmarker := hobject.insert (d := arrayMarker) (by decide) nofun
  have hdefinition := hmarker.insert (d := nullableDefinition) (by decide) nofun
  exact hdefinition.declareInterface rfl (by decide)

/-- **The types inside the first optional types are known.** -/
theorem optional_new (spelling : HostSpelling) (parts : Parts) : Optional (new spelling parts) := by
  have hprimitives := (early_first spelling parts).withPrimitives primitives (by decide)
  have htext := hprimitives.insert
    (d := { facts := { key := .host .text, name := "String", space := some "System" } })
    (by decide) nofun
  have hlinked := htext.insertLink (.host .text) (.host .text) .textIdentity
  have hstring := hlinked.withType .string
    [.name "String", .space "System", .displayable] rfl (by decide)
  have hduration := hstring.withType .duration
    [.name "TimeSpan", .space "System", .valueType] rfl (by decide)
  have hduration? := hduration.withNullable (t := .duration) (by decide) (by decide)
  have htime := hduration?.withType .time
    [.name "DateTime", .space "System", .valueType] rfl (by decide)
  have htime? := htime.withNullable (t := .time) (by decide) (by decide)
  have huuid := htime?.withType .uuid
    [.name "Guid", .space "System", .valueType, .displayable] rfl (by decide)
  have huuid? := huuid.withNullable (t := .uuid) (by decide) (by decide)
  have htypeInfo := huuid?.withType .typeInfo
    [.name "Type", .space "System", .abstractType] rfl (by decide)
  have hmethod := htypeInfo.withType .method
    [.name "MethodBase", .space "System.Reflection", .abstractType, .displayable] rfl (by decide)
  exact hmethod.optional

/-! ## §3. Orderly catalogues. -/

/-- **The type inside an optional type of an orderly catalogue is known.** -/
theorem Orderly.optional (h : Orderly c) : Optional c := by
  induction h with
  | new spelling parts => exact optional_new spelling parts
  | typeOf t _ ih => exact ih.typeOf t
  | describe t _ ih => exact (ih.typeOf t).of_types rfl
  | genericDefinition space name arity _ ih => exact ih.named rfl rfl
  | genericParameter name _ ih => exact ih.named rfl rfl
  | pointerTo d _ ih => exact ih.named rfl rfl
  | byRef d _ ih => exact ih.named rfl rfl
  | declare t clauses _ hnew ih => exact ih.declareFrom hnew nofun
  | declareEnumeration t members clauses _ hnew ih => exact ih.declareFrom hnew nofun
  | declareInterface t clauses _ _ hnew ih => exact ih.declareInterface hnew
  | declareNullable t hc hnew ih =>
      unfold Catalog.declareNullable
      refine (ih.typeOf t).declareFrom hnew fun content he => ?_
      cases he
      exact (hc.tidy.typeOf t).2.2
  | declareArray t _ hnew ih =>
      unfold Catalog.declareArray
      exact (ih.typeOf t).declareFrom hnew nofun

end ValueText.Catalog
