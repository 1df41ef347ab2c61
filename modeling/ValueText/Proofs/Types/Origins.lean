/-
  ValueText.Proofs.Types.Origins — where the descriptors of a catalogue come from.

  A descriptor is made when its type is mentioned for the first time, or when it is
  declared.  Declarations also say how values of the type can be seen.  Of a type that
  was only mentioned nothing is known but its path: its values have no parts, and
  cannot be seen as values of other types.

      Origin    the ways in which a descriptor comes about
      Departs   conversions lead away from declared types only

  Main results:

    • `Orderly.origin`       every known descriptor has an origin;
    • `Orderly.optional_eq`  an optional type is the one of its content;
    • `Orderly.cast?_mentioned`  a value of a type that was only mentioned is seen as
                             no other type.
-/
import ValueText.Proofs.Types.Casting
import ValueText.Proofs.Types.Optional

namespace ValueText.Catalog

open Descriptor (Parent objectType)

variable {c c' : Catalog} {d : Descriptor}

/-! ## §1. Origins. -/

/-- Values of the type can be seen as themselves. -/
def SeesItself (c : Catalog) (k : TypeKey) : Prop := (c.links.get? (k, k)).isSome = true

/-- How a descriptor came into the catalogue. -/
inductive Origin (c : Catalog) (d : Descriptor) : Prop
  /-- The type was mentioned. -/
  | mentioned (before : Catalog) (t : HostType) (h : d = before.blank t)
  /-- The type was declared. -/
  | declared (own : c.SeesItself d.key) (hn : d.nullable = none)
  /-- The type was declared as the optional type of another one. -/
  | optional (own : c.SeesItself d.key) {t : HostType} {content : Descriptor}
      (h : d = optionalType content t) (hkey : content.key = .host t)
  | interface (hi : d.isInterface = true) (hn : d.nullable = none)
  /-- The type was made from others, and is known by a name. -/
  | named {name : String} (hkey : d.key = .named name) (hn : d.nullable = none)
  | object (h : d = objectType)

/-- Links stay, so origins do. -/
theorem Origin.extends (h : Origin c d) (hc : Extends c c') : Origin c' d := by
  cases h with
  | mentioned before t h => exact .mentioned before t h
  | declared own hn => exact .declared (hc _ own) hn
  | optional own h hkey => exact .optional (hc _ own) h hkey
  | interface hi hn => exact .interface hi hn
  | named hkey hn => exact .named hkey hn
  | object h => exact .object h

/-- Descriptors stand under their keys, and have origins. -/
def Sourced (c : Catalog) : Prop := ∀ k d, c.get? k = some d → d.key = k ∧ Origin c d

/-- A descriptor with an origin becomes known, and links stay. -/
theorem Sourced.insert (h : Sourced c) (htypes : c'.types = (c.insert d).types)
    (hlinks : Extends c c') (hd : Origin c' d) : Sourced c' := by
  intro k x hx
  have hget : c'.get? k = (c.insert d).get? k := by rw [get?, get?, htypes]
  rw [hget, get?_insert] at hx
  split at hx
  · next he =>
      cases hx
      exact ⟨he, hd⟩
  · obtain ⟨hkey, horigin⟩ := h k x hx
    exact ⟨hkey, horigin.extends hlinks⟩

theorem Sourced.of_types (h : Sourced c) (htypes : c'.types = c.types) (hlinks : Extends c c') :
    Sourced c' := by
  intro k x hx
  have hget : c'.get? k = c.get? k := by rw [get?, get?, htypes]
  obtain ⟨hkey, horigin⟩ := h k x (hget ▸ hx)
  exact ⟨hkey, horigin.extends hlinks⟩

theorem Sourced.typeOf (h : Sourced c) (t : HostType) : Sourced (c.typeOf t).2 := by
  unfold Catalog.typeOf
  split
  · exact h
  · exact h.insert rfl (.refl c) (.mentioned c t rfl)

theorem Sourced.key_typeOf (h : Sourced c) (t : HostType) : (c.typeOf t).1.key = .host t := by
  unfold Catalog.typeOf
  split
  · next d hd => exact (h _ d hd).1
  · rfl

theorem Sourced.describe (h : Sourced c) (t : HostType) : Sourced (c.describe t).2 := by
  have hlinks : Extends (c.typeOf t).2 (c.describe t).2 := by
    rintro ⟨s, t'⟩ hs
    rw [links_describe, get?_insertNew]
    split
    · rfl
    · exact hs
  exact (h.typeOf t).of_types rfl hlinks

theorem Sourced.named (h : Sourced c) {key : String} {make : TypeKey → Descriptor}
    (hkey : (make (.named key)).key = .named key) (hn : (make (.named key)).nullable = none) :
    Sourced (c.named key make).2 := by
  unfold Catalog.named
  split
  · exact h
  · exact h.insert rfl (.refl c) (.named hkey hn)

theorem Sourced.mentions (clauses : List Clause) : ∀ {c : Catalog}, Sourced c →
    Sourced (clauses.foldl mention c) := by
  induction clauses with
  | nil => exact fun h => h
  | cons clause rest ih =>
      intro c h
      apply ih
      unfold mention
      split
      · exact h.typeOf _
      · exact h.typeOf _
      · exact h.typeOf _
      · exact h

/-! ## §2. Declarations. -/

/-- A declaration lets values be seen as themselves. -/
theorem seesItself_declareFrom (c : Catalog) (t : HostType) (start : Descriptor)
    (clauses : List Clause) : (c.declareFrom t start clauses).2.SeesItself start.key := by
  obtain ⟨-, hkey⟩ := addAll_nullable clauses c ⟨t, start, []⟩
  have hkey : (Draft.addAll c ⟨t, start, []⟩ clauses).1.descriptor.key = start.key := hkey
  rw [← hkey]
  refine extends_publish _ _ _ ?_
  rw [get?_insertLink, if_pos rfl]
  rfl

/-- What is declared from a start that has an origin with the clauses of the declaration. -/
theorem Sourced.declareFrom (h : Sourced c) (t : HostType) (start : Descriptor)
    (clauses : List Clause)
    (hd : Origin (c.declareFrom t start clauses).2
      (Draft.addAll c ⟨t, start, []⟩ clauses).1.descriptor) :
    Sourced (c.declareFrom t start clauses).2 := by
  have hmentioned := Sourced.mentions clauses h
  rw [← addAll_catalog clauses c ⟨t, start, []⟩] at hmentioned
  refine hmentioned.insert ?_ ((extends_insertLink _ _ _ _).trans (extends_publish _ _)) hd
  rw [Catalog.declareFrom, types_publish]
  rfl

/-- A type that is not an optional one is declared. -/
theorem Sourced.declareOther (h : Sourced c) {t : HostType} {start : Descriptor}
    {clauses : List Clause} (hn : start.nullable = none) :
    Sourced (c.declareFrom t start clauses).2 := by
  obtain ⟨hnullable, hkey⟩ := addAll_nullable clauses c ⟨t, start, []⟩
  have hown := seesItself_declareFrom c t start clauses
  refine h.declareFrom t start clauses (.declared ?_ (hnullable.trans hn))
  rw [hkey]
  exact hown

theorem Sourced.declareNullable (h : Sourced c) (t : HostType) :
    Sourced (c.declareNullable t).2 :=
  (h.typeOf t).declareFrom (.option t) (optionalType (c.typeOf t).1 t) []
    (.optional (seesItself_declareFrom _ _ _ []) rfl (h.key_typeOf t))

/-- The clauses of the declaration of an interface leave it one. -/
theorem isInterface_addAll (clauses : List Clause) : ∀ (c : Catalog) (d : Draft),
    (∀ clause ∈ clauses, clause.suitsInterface) → d.descriptor.isInterface = true →
    (d.addAll c clauses).1.descriptor.isInterface = true := by
  induction clauses with
  | nil => exact fun c d _ h => h
  | cons clause rest ih =>
      intro c d hs h
      have hclause : (d.add c clause).1.descriptor.isInterface = true := by
        cases clause with
        | valueType | primitive | abstractType | anonymous | base | instanceOf | property
        | displayable => exact absurd (hs _ List.mem_cons_self) id
        | _ => exact h
      exact ih _ _ (fun k hk => hs k (List.mem_cons_of_mem _ hk)) hclause

theorem Sourced.declareInterface (h : Sourced c) (t : HostType) {clauses : List Clause}
    (hs : ∀ clause ∈ clauses, clause.suitsInterface) :
    Sourced (c.declareInterface t clauses).2 := by
  have hmentioned := Sourced.mentions clauses h
  rw [← addAll_catalog clauses c ⟨t, c.start t .interface, []⟩] at hmentioned
  obtain ⟨hnullable, -⟩ := addAll_nullable clauses c ⟨t, c.start t .interface, []⟩
  refine hmentioned.insert ?_ (extends_publish _ _)
    (.interface (isInterface_addAll clauses c _ hs rfl) hnullable)
  rw [Catalog.declareInterface, types_publish]

theorem Sourced.withType (h : Sourced c) (t : HostType) (clauses : List Clause) :
    Sourced (c.withType t clauses) := h.declareOther rfl

theorem Sourced.withNullable (h : Sourced c) (t : HostType) : Sourced (c.withNullable t) :=
  h.declareNullable t

theorem Sourced.withPrimitives (ps : List (HostType × String)) : ∀ {c : Catalog}, Sourced c →
    Sourced (ps.foldl (fun c p => c.withPrimitive p.1 p.2) c) := by
  induction ps with
  | nil => exact fun h => h
  | cons p ps ih => exact fun h => ih ((h.withType _ _).withNullable p.1)

/-- Texts can be seen as themselves. -/
theorem Sourced.withText (h : Sourced c) (hd : d.key = .host .text) (hn : d.nullable = none) :
    Sourced ((c.insert d).insertLink (.host .text) (.host .text) .textIdentity) := by
  refine h.insert (d := d) rfl (extends_insertLink _ _ _ _) (.declared ?_ hn)
  rw [SeesItself, hd, get?_insertLink, if_pos rfl]
  rfl

/-- The types of the first catalogue have origins. -/
theorem sourced_new (spelling : HostSpelling) (parts : Parts) : Sourced (new spelling parts) := by
  have hempty : Sourced ({ spelling := spelling, parts := parts } : Catalog) := nofun
  have hobject := hempty.insert (d := objectType) rfl (.refl _) (.object rfl)
  have hmarker := hobject.insert (d := arrayMarker) rfl (.refl _) (.named rfl rfl)
  have hdefinition := hmarker.insert (d := nullableDefinition) rfl (.refl _) (.named rfl rfl)
  have hclauses : ∀ clause ∈ [Clause.name "IFormattable", .space "System"],
      clause.suitsInterface := by simp [Clause.suitsInterface]
  have hdisplay := hdefinition.declareInterface .display hclauses
  have hprimitives := hdisplay.withPrimitives primitives
  unfold new
  dsimp only
  -- From the last type that is put in to the texts.
  refine Sourced.withType ?_ .method _
  refine Sourced.withType ?_ .typeInfo _
  refine Sourced.withNullable ?_ .uuid
  refine Sourced.withType ?_ .uuid _
  refine Sourced.withNullable ?_ .time
  refine Sourced.withType ?_ .time _
  refine Sourced.withNullable ?_ .duration
  refine Sourced.withType ?_ .duration _
  refine Sourced.withType ?_ .string _
  exact hprimitives.withText rfl rfl

/-- **Every descriptor of an orderly catalogue has an origin.** -/
theorem Orderly.sourced (h : Orderly c) : Sourced c := by
  induction h with
  | new spelling parts => exact sourced_new spelling parts
  | typeOf t _ ih => exact ih.typeOf t
  | describe t _ ih => exact ih.describe t
  | genericDefinition space name arity _ ih => exact ih.named rfl rfl
  | genericParameter name _ ih => exact ih.named rfl rfl
  | pointerTo d _ ih => exact ih.named rfl rfl
  | byRef d _ ih => exact ih.named rfl rfl
  | declare t clauses _ _ ih => exact ih.declareOther rfl
  | declareEnumeration t members clauses _ _ ih => exact ih.declareOther rfl
  | declareInterface t clauses _ hs _ ih => exact ih.declareInterface t hs
  | declareNullable t _ _ ih => exact ih.declareNullable t
  | declareArray t _ _ ih => exact (ih.typeOf t).declareOther rfl

theorem Orderly.origin (h : Orderly c) (hd : Known c d) : Origin c d := (h.sourced _ d hd).2

/-- **An optional type is the one of its content**, and its values can be seen as themselves. -/
theorem Orderly.optional_eq (h : Orderly c) (hd : Known c d) {content : Descriptor}
    (hn : d.nullable = some content) : ∃ t, d = optionalType content t ∧
      content.key = .host t ∧ c.SeesItself d.key := by
  cases h.origin hd with
  | optional own h hkey =>
      subst h
      cases hn
      exact ⟨_, rfl, hkey, own⟩
  | mentioned before t h => subst h; cases hn
  | object h => subst h; cases hn
  | declared own hn' => rw [hn'] at hn; cases hn
  | interface hi hn' => rw [hn'] at hn; cases hn
  | named hkey hn' => rw [hn'] at hn; cases hn

/-! ## §3. Conversions. -/

/-- Conversions lead away from declared types only. -/
def Departs (c : Catalog) : Prop := ∀ s t k, Steps c s t k →
  c.SeesItself s ∨ ∃ d, c.get? s = some d ∧ d.isInterface = true

/-- Types become known, and links stay as they are. -/
theorem Departs.grows (h : Departs c) (hlinks : c'.links = c.links)
    (htypes : ∀ k d, c.get? k = some d → c'.get? k = some d) : Departs c' := by
  intro s t k hs
  rw [Steps, hlinks] at hs
  rcases h s t k hs with hown | ⟨d, hd, hi⟩
  · exact .inl (by rw [SeesItself, hlinks]; exact hown)
  · exact .inr ⟨d, htypes s d hd, hi⟩

/-- A type that is known keeps its descriptor when others become known. -/
theorem get?_typeOf_of_some {k : TypeKey} (h : c.get? k = some d) (t : HostType) :
    (c.typeOf t).2.get? k = some d := by
  unfold Catalog.typeOf
  split
  · exact h
  · next hnew =>
      rw [Catalog.get?_insert, if_neg, h]
      rintro rfl
      rw [show (c.blank t).key = .host t from rfl, hnew] at h
      cases h

theorem Departs.typeOf (h : Departs c) (t : HostType) : Departs (c.typeOf t).2 := by
  refine h.grows ?_ fun k d hd => get?_typeOf_of_some hd t
  unfold Catalog.typeOf
  split <;> rfl

theorem Departs.named (h : Departs c) {key : String} {make : TypeKey → Descriptor}
    (hkey : (make (.named key)).key = .named key) : Departs (c.named key make).2 := by
  refine h.grows ?_ fun k d hd => ?_
  · unfold Catalog.named
    split <;> rfl
  · unfold Catalog.named
    split
    · exact hd
    · next hn =>
        rw [get?_insert, if_neg ?_]
        · exact hd
        · rintro rfl
          rw [hkey, hn] at hd
          cases hd

theorem Departs.mentions (clauses : List Clause) : ∀ {c : Catalog}, Departs c →
    Departs (clauses.foldl mention c) := by
  induction clauses with
  | nil => exact fun h => h
  | cons clause rest ih =>
      intro c h
      apply ih
      unfold mention
      split
      · exact h.typeOf _
      · exact h.typeOf _
      · exact h.typeOf _
      · exact h

theorem Departs.describe (h : Departs c) (t : HostType) : Departs (c.describe t).2 := by
  intro s t' k hs
  rw [Steps, links_describe, get?_insertNew] at hs
  split at hs
  · cases hs
  · rcases h.typeOf t s t' k hs with hown | hi
    · refine .inl ?_
      rw [SeesItself, links_describe, get?_insertNew]
      split
      · rfl
      · exact hown
    · exact .inr hi

/-- A type is published that can be seen as itself, or is an interface. -/
theorem Departs.publish (h : Departs c) {d : Draft}
    (hd : (c.publish d).2.SeesItself d.descriptor.key ∨ d.descriptor.isInterface = true) :
    Departs (c.publish d).2 := by
  obtain ⟨hothers, -⟩ := links_foldl d.descriptor.key d.links c
  have hget (k : TypeKey) : (c.publish d).2.get? k = (c.insert d.descriptor).get? k := by
    rw [get?, get?, types_publish]
  intro s t k hs
  by_cases hself : s = d.descriptor.key
  · rw [hself]
    refine hd.imp id fun hi => ⟨d.descriptor, ?_, hi⟩
    rw [hget, get?_insert, if_pos rfl]
  · have hlinks (t : TypeKey) : (c.publish d).2.links.get? (s, t) = c.links.get? (s, t) :=
      hothers s t hself
    rw [Steps, hlinks] at hs
    rcases h s t k hs with hown | ⟨x, hx, hi⟩
    · exact .inl (by rw [SeesItself, hlinks]; exact hown)
    · refine .inr ⟨x, ?_, hi⟩
      rw [hget, get?_insert, if_neg (Ne.symm hself)]
      exact hx

theorem Departs.declareFrom (h : Departs c) {t : HostType} {start : Descriptor}
    {clauses : List Clause} :
    Departs (c.declareFrom t start clauses).2 := by
  obtain ⟨-, hkey⟩ := addAll_nullable clauses c ⟨t, start, []⟩
  have hkey : (Draft.addAll c ⟨t, start, []⟩ clauses).1.descriptor.key = start.key := hkey
  have hown := seesItself_declareFrom c t start clauses
  have hmentioned := Departs.mentions clauses h
  rw [← addAll_catalog clauses c ⟨t, start, []⟩] at hmentioned
  -- The link by which the type is seen as itself is no conversion.
  have hlinked : Departs ((Draft.addAll c ⟨t, start, []⟩ clauses).2.insertLink start.key start.key
      .identity) := by
    intro s t' k hs
    rw [Steps, get?_insertLink] at hs
    split at hs
    · cases hs
    · rcases hmentioned s t' k hs with hown | hi
      · exact .inl (extends_insertLink _ _ _ _ _ hown)
      · exact .inr hi
  rw [← hkey] at hlinked hown
  exact hlinked.publish (.inl hown)

theorem Departs.declareInterface (h : Departs c) {t : HostType} {clauses : List Clause}
    (hs : ∀ clause ∈ clauses, clause.suitsInterface) :
    Departs (c.declareInterface t clauses).2 := by
  have hmentioned := Departs.mentions clauses h
  rw [← addAll_catalog clauses c ⟨t, c.start t .interface, []⟩] at hmentioned
  exact hmentioned.publish (.inr (isInterface_addAll clauses c _ hs rfl))

/-- **Conversions lead away from declared types only.** -/
theorem Orderly.departs (h : Orderly c) : Departs c := by
  induction h with
  | new spelling parts =>
      intro s t k hs
      have hloop := ((looped_new spelling parts).1 s t _ hs).2.1
      exact absurd hloop not_upcast_loop
  | typeOf t _ ih => exact ih.typeOf t
  | describe t _ ih => exact ih.describe t
  | genericDefinition space name arity _ ih => exact ih.named rfl
  | genericParameter name _ ih => exact ih.named rfl
  | pointerTo d _ ih => exact ih.named rfl
  | byRef d _ ih => exact ih.named rfl
  | declare t clauses _ _ ih => exact ih.declareFrom
  | declareEnumeration t members clauses _ _ ih => exact ih.declareFrom
  | declareInterface t clauses _ hs _ ih => exact ih.declareInterface hs
  | declareNullable t _ _ ih => exact (ih.typeOf t).declareFrom
  | declareArray t _ _ ih => exact (ih.typeOf t).declareFrom

/-! ## §4. Types that were only mentioned. -/

/-- The chain of a type without parents. -/
theorem mem_chain_of_parentless (hno : ∀ p, ¬ Parent p d) {x : Descriptor} (hx : x ∈ d.chain) :
    x = d ∨ x = objectType := by
  rcases List.mem_cons.mp hx with rfl | hx
  · exact .inl rfl
  · rcases Descriptor.mem_supertypes hx with hancestor | ⟨-, he⟩
    · -- The last step to an ancestor is one to a parent.
      obtain ⟨p, -, hp⟩ := Relation.TransGen.tail'_iff.mp hancestor
      exact absurd hp (hno p)
    · exact .inr he

/-- A type that can be a value's own, but as which values cannot be seen, was only mentioned. -/
theorem Orderly.mentioned (h : Orderly c) (hd : Known c d) {t : HostType} (hkey : d.key = .host t)
    (ht : t ≠ .object) (hi : d.isInterface = false) (hown : ¬ c.SeesItself d.key) :
    ∃ before t', d = blank before t' := by
  cases h.origin hd with
  | mentioned before t h => exact ⟨before, t, h⟩
  | declared own => exact absurd own hown
  | optional own => exact absurd own hown
  | interface hi' => rw [hi] at hi'; cases hi'
  | named hname => rw [hkey] at hname; cases hname
  | object h =>
      subst h
      exact absurd (TypeKey.host.inj hkey).symm ht

/-- **A value of a type that was only mentioned is seen as no other type**, also when it has been
seen as itself in the meantime. -/
theorem Orderly.cast?_mentioned (h : Orderly c) (hd : Known c d) (hi : d.isInterface = false)
    (hown : ¬ c.SeesItself d.key) (hno : ∀ p, ¬ Parent p d) (h' : Orderly c')
    (hsteps : ∀ s t k, Steps c' s t k → Steps c s t k) {v : Value} {t : HostType}
    (ht : d.key ≠ .host t) : c'.cast? ⟨v, d⟩ t = none := by
  refine cast?_eq_none h'.linked.toLinked fun hreached => ?_
  obtain ⟨x, hx, k, hk⟩ := hreached.resolve_left ht
  have hk := hsteps _ _ k hk
  rcases mem_chain_of_parentless hno hx with rfl | rfl
  · rcases h.departs _ _ k hk with hself | ⟨y, hy, hyi⟩
    · exact hown hself
    · rw [Known] at hd
      rw [hd] at hy
      cases hy
      rw [hi] at hyi
      cases hyi
  · exact h.linked.object _ k hk

/-! ## §5. Pairing values with types that are known. -/

/-- Pairing a value with its type adds no conversions. -/
theorem steps_runtimeType {v : Value} {s t : TypeKey} {k : Caster}
    (hs : Steps (c.runtimeType v).2 s t k) : Steps c s t k := by
  have hlinks (t : HostType) : (c.typeOf t).2.links = c.links := by
    unfold Catalog.typeOf
    split <;> rfl
  have hdescribe (t' : HostType) (hs : Steps (c.describe t').2 s t k) : Steps c s t k := by
    rw [Steps, links_describe, get?_insertNew] at hs
    split at hs
    · cases hs
    · rw [Steps, ← hlinks t']
      exact hs
  cases v with
  | text s =>
      rw [Steps, ← hlinks .text]
      exact hs
  | _ => exact hdescribe _ hs

/-- A value whose type is known is paired with the descriptor of that, and nothing changes if it
can be seen as itself already. -/
theorem runtimeType_of_known {v : Value} (hd : c.get? (.host v.type) = some d) :
    (c.runtimeType v).1 = d ∧ (c.SeesItself (.host v.type) → d.key = .host v.type →
      (c.runtimeType v).2 = c) := by
  have htypeOf (t : HostType) (h : c.get? (.host t) = some d) : c.typeOf t = (d, c) := by
    unfold Catalog.typeOf
    rw [h]
  have hdescribe (t : HostType) (h : c.get? (.host t) = some d) : (c.describe t).1 = d ∧
      (c.SeesItself (.host t) → d.key = .host t → (c.describe t).2 = c) := by
    unfold Catalog.describe
    rw [htypeOf t h]
    refine ⟨rfl, fun hown hkey => ?_⟩
    have hcontains : c.links.contains (.host t, .host t) = true := hown
    dsimp only
    rw [hkey, Table.insertNew, if_pos hcontains]
  cases v with
  | text s =>
      show (c.typeOf .text).1 = d ∧ (_ → _ → (c.typeOf .text).2 = c)
      rw [htypeOf .text hd]
      exact ⟨rfl, fun _ _ => rfl⟩
  | _ => exact hdescribe _ hd

end ValueText.Catalog
