/-
  ValueText.Proofs.Types.Chains — chains of supertypes against what was declared.

  Declarations name base types and interfaces.  The descriptors hold what was named, and the walk
  over them finds the supertypes.  This file compares the two ends: the list of
  supertypes with the clauses of the declarations, for catalogues in which each type is
  declared once at most, before it is mentioned, and with one base type at most.

  Main results:

    • `Family.supertypes_eq`  base types, then the interfaces that are reached, then the
                              object type;
    • `Declares.charted`      the descriptors hold exactly what was named;
    • `supertypes_exact`      both together, and the order that they make of types.
-/
import ValueText.Proofs.Types.Links

namespace ValueText

open Descriptor (Parent Ancestor objectType)

/-! ## §1. The parts of a chain. -/

namespace Descriptor

/-- The types are the base types of `d`, the nearest one first, up to the object type. -/
def BaseChain : Descriptor → List Descriptor → Prop
  | d, [] => d.base = none ∨ d.base = some objectType
  | d, b :: bs => d.base = some b ∧ b.isObject = false ∧ BaseChain b bs

/-- The type is one of the interfaces that `d` names, or one that these extend. -/
abbrev Implements : Descriptor → Descriptor → Prop := Relation.TransGen fun i d => i ∈ d.interfaces

theorem Implements.ancestor {i d : Descriptor} (h : Implements i d) : Ancestor i d := by
  induction h with
  | single h => exact .single (.inr h)
  | tail _ h ih => exact ih.tail (.inr h)

theorem isObject_of_isInterface {d : Descriptor} (h : d.isInterface = true) :
    d.isObject = false := by
  unfold isInterface at h
  unfold isObject
  rw [of_decide_eq_true h]
  rfl

theorem baseChain_basesUpTo (self : TypeKey) : ∀ (d : Descriptor),
    (∀ x, Ancestor x d → x.key ≠ self ∧ (x.isObject = true → x = objectType)) →
      BaseChain d (basesUpTo self d)
  | ⟨facts, outer, none, interfaces, definition, arguments, element, nullable, sequence⟩, _ => by
      simp only [basesUpTo]
      exact .inl rfl
  | ⟨facts, outer, some base, interfaces, definition, arguments, element, nullable, sequence⟩,
      hself => by
      have hparent : Parent base
          ⟨facts, outer, some base, interfaces, definition, arguments, element, nullable,
            sequence⟩ := .inl rfl
      obtain ⟨hkey, hobject⟩ := hself base (.single hparent)
      unfold basesUpTo
      by_cases ho : base.isObject = true
      · rw [if_pos (by simp [ho])]
        exact .inr (congrArg some (hobject ho))
      · rw [if_neg (by simp [ho, hkey])]
        exact ⟨rfl, Bool.eq_false_iff.mpr ho,
          baseChain_basesUpTo self base fun x hx => hself x (hx.tail hparent)⟩

/-- What the walk adds to the types that were found before is reached from an interface. -/
theorem mem_foldl_interfaces (bs : List Descriptor) : ∀ {found : List Descriptor} {x : Descriptor},
    x ∈ bs.foldl (fun found b => reachAll found b.interfaces) found →
      x ∈ found ∨ ∃ b ∈ bs, ∃ i ∈ b.interfaces, x = i ∨ Ancestor x i := by
  induction bs with
  | nil => intro found x h; exact .inl h
  | cons b bs ih =>
      intro found x h
      rcases ih h with hfound | ⟨b', hb', hx⟩
      · rcases mem_reachAll found b.interfaces hfound with hfound | hx
        · exact .inl hfound
        · exact .inr ⟨b, List.mem_cons_self, hx⟩
      · exact .inr ⟨b', List.mem_cons_of_mem _ hb', hx⟩

namespace Family

variable {K : Descriptor → Prop} {a d i : Descriptor}

theorem baseChain_bases (hK : Family K) (hd : K d) : BaseChain d d.bases :=
  baseChain_basesUpTo d.key d fun x hx =>
    ⟨hK.key_ne_of_ancestor hd hx, hK.isObject x (hK.ancestor hx hd)⟩

/-- The ancestors of an interface are interfaces that it extends. -/
theorem implements_of_ancestor (hK : Family K) (hP : Plain K) (h : Ancestor a i) (hi : K i)
    (himp : i.Implementable) : Implements a i := by
  induction h using Relation.TransGen.head_induction_on with
  | single h =>
      rcases h with h | h
      · rw [(hK.rootless hP hi himp).1] at h
        cases h
      · exact .single h
  | head h hc ih =>
      have hknown := hK.ancestor hc hi
      rcases h with h | h
      · rw [(hK.rootless hP hknown (hK.implementable_of_ancestor hP hc hi himp)).1] at h
        cases h
      · exact .head h ih

/-- What the walk finds behind the base types is reached through interfaces. -/
theorem implements_of_mem (hK : Family K) (hP : Plain K) (hd : K d) (h : i ∈ d.ancestors)
    (hno : i ∉ d.bases) : ∃ b ∈ d :: d.bases, Implements i b := by
  rw [ancestors_eq_foldl] at h
  rcases mem_foldl_interfaces _ h with hbase | ⟨b, hb, j, hj, hij⟩
  · exact absurd hbase hno
  · have hknown := hK.known_bases hd b hb
    refine ⟨b, hb, ?_⟩
    rcases hij with rfl | hij
    · exact .single hj
    · exact (hK.implements_of_ancestor hP hij (hK.known_interfaces hknown j hj)
        (hP.implemented j b hknown hj)).tail hj

/-- **Supertypes** are the base types, the nearest one first, then exactly the interfaces
that the type and its base types reach, then the object type. -/
theorem supertypes_eq (hK : Family K) (hP : Plain K) (hd : K d) (ho : d.isObject = false) :
    ∃ is, d.supertypes = d.bases ++ is ++ [objectType] ∧
      ∀ i, i ∈ is ↔ i.isInterface = true ∧ i ∉ d.bases ∧ ∃ b ∈ d :: d.bases, Implements i b := by
  obtain ⟨rest, hrest⟩ := prefix_foldl_reachAll (d :: d.bases) d.bases
  rw [← ancestors_eq_foldl] at hrest
  have hbases : d.bases.filter (fun a => !a.isObject) = d.bases := by
    rw [List.filter_eq_self]
    intro b hb
    simp [(mem_basesUpTo _ d hb).2]
  refine ⟨rest.filter (fun a => !a.isObject), ?_, fun i => ?_⟩
  · rw [supertypes, if_neg (by simp [ho]), ← hrest, List.filter_append, hbases]
  · have hmem : i ∈ d.ancestors ↔ i ∈ d.bases ∨ i ∈ rest := by rw [← hrest, List.mem_append]
    constructor
    · intro hi
      obtain ⟨hi, hobject⟩ := List.mem_filter.mp hi
      have hin : i ∈ d.ancestors := hmem.mpr (.inr hi)
      -- The walk finds a type once, so one behind the base types is none of them.
      have hno : i ∉ d.bases := by
        intro hb
        have hdistinct := hK.distinct_ancestors hd
        rw [← hrest] at hdistinct
        exact (List.pairwise_append.mp hdistinct).2.2 i hb i hi rfl
      refine ⟨?_, hno, hK.implements_of_mem hP hd hin hno⟩
      rcases (hK.mem_bases_or_implementable hP hd hin).resolve_left hno with hint | hobj
      · exact hint
      · rw [hobj] at hobject
        cases hobject
    · rintro ⟨hint, hno, b, hb, himp⟩
      have hobject := isObject_of_isInterface hint
      have hancestor : Ancestor i d := by
        rcases List.mem_cons.mp hb with rfl | hb
        · exact himp.ancestor
        · exact himp.ancestor.trans (mem_basesUpTo _ d hb).1
      have hin := (hK.mem_ancestors hP hd hancestor).resolve_left (by simp [hobject])
      exact List.mem_filter.mpr ⟨(hmem.mp hin).resolve_left hno, by simp [hobject]⟩

end Family

end Descriptor

namespace Catalog

variable {c c' : Catalog} {d : Descriptor}

/-! ## §2. What declarations name. -/

/-- The conversion to the supertype that a clause names. -/
def Clause.caster? : Clause → Option Caster
  | .base t => some (.toBase t)
  | .implements t => some (.toInterface t)
  | _ => none

/-- The base type that a clause names. -/
def Clause.base? : Clause → Option HostType
  | .base t => some t
  | _ => none

/-- The supertypes that the declaration of a type names. -/
def namedBy (t : HostType) (clauses : List Clause) : List (TypeKey × Caster) :=
  (clauses.filterMap Clause.caster?).map fun k => (.host t, k)

/-- One base type at most is named. -/
def SingleBase (clauses : List Clause) : Prop := (clauses.filterMap Clause.base?).length ≤ 1

/-- A catalogue in which each type was declared once at most, before it was mentioned, and with
one base type at most; the declarations named the supertypes `es`. -/
inductive Declares : List (TypeKey × Caster) → Catalog → Prop
  | new (spelling : HostSpelling) (parts : Parts) : Declares [] (new spelling parts)
  | typeOf {es c} (t : HostType) : Declares es c → Declares es (c.typeOf t).2
  | describe {es c} (t : HostType) : Declares es c → Declares es (c.describe t).2
  | genericDefinition {es c} (space : Option String) (name : String) (arity : Nat) :
      Declares es c → Declares es (c.genericDefinition space name arity).2
  | genericParameter {es c} (name : String) :
      Declares es c → Declares es (c.genericParameter name).2
  | pointerTo {es c} (d : Descriptor) : Declares es c → Declares es (c.pointerTo d).2
  | byRef {es c} (d : Descriptor) : Declares es c → Declares es (c.byRef d).2
  | declare {es c} (t : HostType) (clauses : List Clause) : Declares es c →
      Unmentioned c t clauses → SingleBase clauses →
      Declares (namedBy t clauses ++ es) (c.declare t clauses).2
  | declareEnumeration {es c} (t : HostType) (members : Enumeration.Declared)
      (clauses : List Clause) : Declares es c → Unmentioned c t clauses → SingleBase clauses →
      Declares (namedBy t clauses ++ es) (c.declareEnumeration t members clauses).2
  | declareInterface {es c} (t : HostType) (clauses : List Clause) : Declares es c →
      (∀ clause ∈ clauses, clause.suitsInterface) → Unmentioned c t clauses →
      Declares (namedBy t clauses ++ es) (c.declareInterface t clauses).2
  | declareNullable {es c} (t : HostType) : Declares es c →
      Unmentioned (c.typeOf t).2 (.option t) [] → Declares es (c.declareNullable t).2
  | declareArray {es c} (t : HostType) : Declares es c →
      Unmentioned (c.typeOf t).2 (.array t) [] → Declares es (c.declareArray t).2

variable {es : List (TypeKey × Caster)}

theorem Declares.orderly (h : Declares es c) : Orderly c := by
  induction h with
  | new spelling parts => exact .new spelling parts
  | typeOf t _ ih => exact .typeOf t ih
  | describe t _ ih => exact .describe t ih
  | genericDefinition space name arity _ ih => exact .genericDefinition space name arity ih
  | genericParameter name _ ih => exact .genericParameter name ih
  | pointerTo d _ ih => exact .pointerTo d ih
  | byRef d _ ih => exact .byRef d ih
  | declare t clauses _ hnew _ ih => exact .declare t clauses ih hnew
  | declareEnumeration t members clauses _ hnew _ ih =>
      exact .declareEnumeration t members clauses ih hnew
  | declareInterface t clauses _ hs hnew ih => exact .declareInterface t clauses ih hs hnew
  | declareNullable t _ hnew ih => exact .declareNullable t ih hnew
  | declareArray t _ hnew ih => exact .declareArray t ih hnew

/-- The descriptor holds the supertype that the conversion leads to: as its base type, or among
its interfaces. -/
def Holds (d : Descriptor) : Caster → Prop
  | .toBase t => ∃ p, d.base = some p ∧ p.key = .host t
  | .toInterface t => ∃ p ∈ d.interfaces, p.key = .host t

/-- The descriptors of a catalogue hold exactly the supertypes `es`. -/
structure Charted (es : List (TypeKey × Caster)) (c : Catalog) : Prop where
  tidy : Tidy c
  sound : ∀ d k, Known c d → Holds d k → (d.key, k) ∈ es
  complete : ∀ s k, (s, k) ∈ es → ∃ d, Known c d ∧ d.key = s ∧ Holds d k

theorem not_holds_of_parentless (hparents : ∀ p, ¬ Parent p d) (k : Caster) : ¬ Holds d k := by
  cases k with
  | toBase t =>
      rintro ⟨p, hp, -⟩
      exact hparents p (.inl hp)
  | toInterface t =>
      rintro ⟨p, hp, -⟩
      exact hparents p (.inr hp)

/-- Types without parents that become known change nothing. -/
theorem Charted.grow (h : Charted es c) (ht : Tidy c') (hg : Grows c c')
    (hnew : ∀ x, Known c' x → Known c x ∨ ∀ p, ¬ Parent p x) : Charted es c' := by
  refine ⟨ht, fun x k hx hk => ?_, fun s k hk => ?_⟩
  · rcases hnew x hx with hx | hno
    · exact h.sound x k hx hk
    · exact absurd hk (not_holds_of_parentless hno k)
  · obtain ⟨x, hx, hs, hholds⟩ := h.complete s k hk
    exact ⟨x, hg x hx, hs, hholds⟩

theorem Charted.typeOf (h : Charted es c) (t : HostType) : Charted es (c.typeOf t).2 := by
  obtain ⟨ht, hg, -⟩ := h.tidy.typeOf t
  refine h.grow ht hg fun x hx => ?_
  unfold Catalog.typeOf at hx
  split at hx
  · exact .inl hx
  · rcases known_insert hx with rfl | hx
    · exact .inr (not_parent_of_parentless rfl rfl)
    · exact .inl hx

theorem Charted.named (h : Charted es c) {key : String} {make : TypeKey → Descriptor}
    (hkey : (make (.named key)).key = .named key) (hfits : Fits c (make (.named key)))
    (hparents : ∀ p, ¬ Parent p (make (.named key))) : Charted es (c.named key make).2 := by
  obtain ⟨ht, hg⟩ := h.tidy.named hkey hfits
  refine h.grow ht hg fun x hx => ?_
  unfold Catalog.named at hx
  split at hx
  · exact .inl hx
  · rcases known_insert hx with rfl | hx
    · exact .inr hparents
    · exact .inl hx

theorem Charted.mention (h : Charted es c) (clause : Clause) : Charted es (c.mention clause) := by
  cases clause with
  | nestedIn t => exact h.typeOf t
  | base t => exact h.typeOf t
  | implements t => exact h.typeOf t
  | _ => exact h

theorem charted_mentions (clauses : List Clause) : ∀ {c : Catalog}, Charted es c →
    Charted es (clauses.foldl Catalog.mention c) := by
  induction clauses with
  | nil => exact fun h => h
  | cons clause rest ih => exact fun h => ih (h.mention clause)

/-- A draft that has no base type yet, or gets none. -/
def AwaitsBase (d : Draft) (clauses : List Clause) : Prop :=
  d.descriptor.base = none ∧ SingleBase clauses ∨ clauses.filterMap Clause.base? = []

/-- Naming a base type leaves no other one to be named. -/
theorem AwaitsBase.add {d : Draft} {clause : Clause} {rest : List Clause}
    (h : AwaitsBase d (clause :: rest)) (c : Catalog) : AwaitsBase (d.add c clause).1 rest := by
  cases clause with
  | base t =>
      rcases h with ⟨-, hsingle⟩ | hno
      · simp only [SingleBase, List.filterMap_cons, Clause.base?, List.length_cons] at hsingle
        exact .inr (List.eq_nil_of_length_eq_zero (by omega))
      · simp [Clause.base?] at hno
  | _ => exact h

/-- A clause adds the supertype that it names. -/
theorem holds_add (hc : Tidy c) {d : Draft} {clause : Clause} {rest : List Clause}
    (hawaits : AwaitsBase d (clause :: rest)) (k : Caster) :
    Holds (d.add c clause).1.descriptor k ↔
      Holds d.descriptor k ∨ clause.caster? = some k := by
  cases clause with
  | base t =>
      -- The draft has no base type that the new one would replace.
      have hnone : d.descriptor.base = none := by
        rcases hawaits with ⟨hnone, -⟩ | hno
        · exact hnone
        · simp [Clause.base?] at hno
      cases k with
      | toBase u => simp [Holds, Draft.add, Draft.link, Clause.caster?, hnone, hc.key_typeOf]
      | toInterface u => simp [Holds, Draft.add, Draft.link, Clause.caster?]
  | implements t =>
      cases k with
      | toBase u => simp [Holds, Draft.add, Draft.link, Clause.caster?]
      | toInterface u =>
          simp [Holds, Draft.add, Draft.link, Clause.caster?, or_and_right, exists_or,
            hc.key_typeOf]
  | _ =>
      show Holds d.descriptor k ↔ _
      simp [Clause.caster?]

/-- **A draft holds the supertypes that its clauses name**, and those that it held before. -/
theorem holds_addAll (clauses : List Clause) : ∀ {c : Catalog} {d : Draft}, Tidy c →
    Fits c d.descriptor →
    (d.descriptor.isInterface = false ∨ ∀ clause ∈ clauses, clause.suitsInterface) →
    AwaitsBase d clauses → ∀ k, Holds (d.addAll c clauses).1.descriptor k ↔
      Holds d.descriptor k ∨ k ∈ clauses.filterMap Clause.caster? := by
  induction clauses with
  | nil =>
      intro c d _ _ _ _ k
      simp [Draft.addAll]
  | cons clause rest ih =>
      intro c d hc hd hs hawaits k
      have h₁ := drafted_add hc hd clause (hs.imp id fun h => h clause List.mem_cons_self)
      have hrest := ih h₁.tidy h₁.fits
        (hs.imp h₁.interface fun h k hk => h k (List.mem_cons_of_mem _ hk)) (hawaits.add c) k
      have hnamed : k ∈ (clause :: rest).filterMap Clause.caster? ↔
          clause.caster? = some k ∨ k ∈ rest.filterMap Clause.caster? := by
        simp
      rw [holds_add hc hawaits, or_assoc, ← hnamed] at hrest
      exact hrest

theorem mem_namedBy {t : HostType} {clauses : List Clause} {s : TypeKey} {k : Caster} :
    (s, k) ∈ namedBy t clauses ↔ s = .host t ∧ k ∈ clauses.filterMap Clause.caster? := by
  simp only [namedBy, List.mem_map, Prod.mk.injEq]
  constructor
  · rintro ⟨j, hj, rfl, rfl⟩
    exact ⟨rfl, hj⟩
  · rintro ⟨rfl, hk⟩
    exact ⟨k, hk, rfl, rfl⟩

/-- **A declared type holds what its declaration named.** -/
theorem Charted.declared (h : Charted es c) {t : HostType} {start : Descriptor}
    {clauses : List Clause} (hkey : start.key = .host t) (hb : start.base = none)
    (hi : start.interfaces = []) (hfits : Fits c start)
    (hs : start.isInterface = false ∨ ∀ clause ∈ clauses, clause.suitsInterface)
    (hsingle : SingleBase clauses) (hnew : Unmentioned c t clauses)
    (hc' : c'.types = ((clauses.foldl Catalog.mention c).insert
      (Draft.addAll c ⟨t, start, []⟩ clauses).1.descriptor).types) :
    Charted (namedBy t clauses ++ es) c' := by
  have hmentioned := charted_mentions clauses h
  have hdraft := drafted_addAll clauses h.tidy (d := ⟨t, start, []⟩) hfits hs
  have hholds := holds_addAll clauses h.tidy (d := ⟨t, start, []⟩) hfits hs (.inl ⟨hb, hsingle⟩)
  rw [← addAll_catalog clauses c ⟨t, start, []⟩] at hmentioned hc'
  rw [Unmentioned, ← addAll_catalog clauses c ⟨t, start, []⟩, ← hkey] at hnew
  obtain ⟨htidy, -⟩ := hdraft.publish hnew hc'
  have hkey' := hdraft.key.trans hkey
  -- The start has no supertypes, so the draft holds what the clauses name.
  have hnamed (k : Caster) : Holds (Draft.addAll c ⟨t, start, []⟩ clauses).1.descriptor k ↔
      k ∈ clauses.filterMap Clause.caster? := by
    rw [hholds k]
    exact or_iff_right (not_holds_of_parentless (not_parent_of_parentless hb hi) k)
  generalize Draft.addAll c ⟨t, start, []⟩ clauses = r at *
  have hknown (x : Descriptor) : Known c' x ↔ Known (r.2.insert r.1.descriptor) x := by
    rw [Known, Known, get?, get?, hc']
  have hgrows : Grows r.2 (r.2.insert r.1.descriptor) :=
    grows_insert (by rw [hkey', ← hkey]; exact hnew)
  refine ⟨htidy, fun x k hx hk => ?_, fun s k hk => ?_⟩
  · rcases known_insert ((hknown x).mp hx) with rfl | hx
    · exact List.mem_append_left _ (mem_namedBy.mpr ⟨hkey', (hnamed k).mp hk⟩)
    · exact List.mem_append_right _ (hmentioned.sound x k hx hk)
  · rcases List.mem_append.mp hk with hk | hk
    · obtain ⟨rfl, hclause⟩ := mem_namedBy.mp hk
      refine ⟨r.1.descriptor, (hknown _).mpr ?_, hkey', (hnamed k).mpr hclause⟩
      rw [Known, get?_insert, if_pos rfl]
    · obtain ⟨x, hx, hs, hxk⟩ := hmentioned.complete s k hk
      exact ⟨x, (hknown x).mpr (hgrows x hx), hs, hxk⟩

theorem singleBase_of_suitsInterface {clauses : List Clause}
    (hs : ∀ clause ∈ clauses, clause.suitsInterface) : SingleBase clauses := by
  have hnone : clauses.filterMap Clause.base? = [] := by
    rw [List.filterMap_eq_nil_iff]
    intro clause hclause
    have hsuits := hs clause hclause
    cases clause with
    | base t => exact hsuits.elim
    | _ => rfl
  rw [SingleBase, hnone]
  exact Nat.zero_le 1

theorem singleBase_nil : SingleBase [] := Nat.zero_le 1

theorem types_declareFrom (c : Catalog) (t : HostType) (start : Descriptor)
    (clauses : List Clause) : (c.declareFrom t start clauses).2.types =
      ((clauses.foldl mention c).insert
        (Draft.addAll c ⟨t, start, []⟩ clauses).1.descriptor).types := by
  rw [← addAll_catalog clauses c ⟨t, start, []⟩, declareFrom, types_publish]
  rfl

/-- **The descriptors hold exactly what was named.** -/
theorem Declares.charted (h : Declares es c) : Charted es c := by
  induction h with
  | new spelling parts =>
      have hflat := flat_new spelling parts
      refine ⟨hflat.tidy, fun d k hd hk => ?_, nofun⟩
      obtain ⟨hb, hi, -⟩ := hflat.plain _ d hd
      exact absurd hk (not_holds_of_parentless (not_parent_of_parentless hb hi) k)
  | typeOf t _ ih => exact ih.typeOf t
  | describe t _ ih =>
      have htypeOf := ih.typeOf t
      exact ⟨htypeOf.tidy.of_types rfl, htypeOf.sound, htypeOf.complete⟩
  | genericDefinition space name arity _ ih =>
      exact ih.named rfl (fits_of_parentless rfl rfl rfl rfl) (not_parent_of_parentless rfl rfl)
  | genericParameter name _ ih =>
      exact ih.named rfl (fits_of_parentless rfl rfl rfl rfl) (not_parent_of_parentless rfl rfl)
  | pointerTo d _ ih =>
      exact ih.named rfl (fits_of_parentless rfl rfl rfl rfl) (not_parent_of_parentless rfl rfl)
  | byRef d _ ih =>
      exact ih.named rfl (fits_of_parentless rfl rfl rfl rfl) (not_parent_of_parentless rfl rfl)
  | declare t clauses _ hnew hsingle ih =>
      exact ih.declared rfl rfl rfl (fits_of_parentless rfl rfl rfl rfl) (.inl rfl) hsingle hnew
        (types_declareFrom _ t _ clauses)
  | declareEnumeration t members clauses _ hnew hsingle ih =>
      exact ih.declared rfl rfl rfl (fits_of_parentless rfl rfl rfl rfl) (.inl rfl) hsingle hnew
        (types_declareFrom _ t _ clauses)
  | declareInterface t clauses _ hs hnew ih =>
      have hfits (c : Catalog) : Fits c (c.start t .interface) :=
        ⟨fun p hp => absurd hp (not_parent_of_parentless rfl rfl p), rfl, fun _ => ⟨rfl, rfl⟩⟩
      refine ih.declared rfl rfl rfl (hfits _) (.inr hs) (singleBase_of_suitsInterface hs) hnew ?_
      rw [Catalog.declareInterface, types_publish, addAll_catalog]
  | declareNullable t _ hnew ih =>
      exact (ih.typeOf t).declared rfl rfl rfl (fits_of_parentless rfl rfl rfl rfl) (.inl rfl)
        singleBase_nil hnew (types_declareFrom _ _ _ [])
  | declareArray t _ hnew ih =>
      exact (ih.typeOf t).declared rfl rfl rfl (fits_of_parentless rfl rfl rfl rfl) (.inl rfl)
        singleBase_nil hnew (types_declareFrom _ _ _ [])

/-! ## §3. Chains and declarations. -/

/-- The types are the base types that were named: that of the type with the key, the base type of
this one, and so on up to the object type. -/
def BasesFrom (es : List (TypeKey × Caster)) : TypeKey → List Descriptor → Prop
  | k, [] => ∀ t, (k, .toBase t) ∈ es → t = .object
  | k, b :: bs => (∃ t, (k, .toBase t) ∈ es ∧ t ≠ .object ∧ b.key = .host t) ∧ BasesFrom es b.key bs

/-- The first type was named as an interface of the second one, or of one that was. -/
abbrev Offers (es : List (TypeKey × Caster)) : TypeKey → TypeKey → Prop :=
  Relation.TransGen fun i s => ∃ t, (s, .toInterface t) ∈ es ∧ i = .host t

/-- The first type was named as a supertype of the second one, or of one that was. -/
abbrev Above (es : List (TypeKey × Caster)) : TypeKey → TypeKey → Prop :=
  Relation.TransGen fun a s => ∃ k, (s, k) ∈ es ∧ a = .host k.target

namespace Charted

theorem holds_iff (h : Charted es c) (hd : Known c d) (k : Caster) :
    (d.key, k) ∈ es ↔ Holds d k := by
  refine ⟨fun hk => ?_, h.sound d k hd⟩
  obtain ⟨x, hx, hkey, hxk⟩ := h.complete d.key k hk
  rwa [h.tidy.family.unique x d hx hd hkey] at hxk

/-- A relation of descriptors that can be seen from the keys is followed on these. -/
theorem transGen_iff (h : Charted es c) {R : Descriptor → Descriptor → Prop}
    {S : TypeKey → TypeKey → Prop} (hR : ∀ p d, Known c d → R p d → Known c p ∧ S p.key d.key)
    (hS : ∀ k d, Known c d → S k d.key → ∃ p, Known c p ∧ p.key = k ∧ R p d) {a : Descriptor}
    (ha : Known c a) (hd : Known c d) :
    Relation.TransGen R a d ↔ Relation.TransGen S a.key d.key := by
  constructor
  · intro hpath
    induction hpath with
    | single hp => exact .single (hR _ _ hd hp).2
    | tail _ hp ih =>
        obtain ⟨hknown, hs⟩ := hR _ _ hd hp
        exact (ih hknown).tail hs
  · intro hpath
    -- The path is followed from its lower end, where the descriptor is known.
    generalize hkey : d.key = k at hpath
    induction hpath generalizing d with
    | single hs =>
        subst hkey
        obtain ⟨p, hp, hpkey, hpd⟩ := hS _ d hd hs
        rw [h.tidy.family.unique a p ha hp hpkey.symm]
        exact .single hpd
    | tail _ hs ih =>
        subst hkey
        obtain ⟨p, hp, hpkey, hpd⟩ := hS _ d hd hs
        exact (ih hp hpkey).tail hpd

/-- The parents are found under the keys that were named. -/
theorem exists_parent (h : Charted es c) (hd : Known c d) {k : Caster} (hk : (d.key, k) ∈ es) :
    ∃ p, Known c p ∧ p.key = .host k.target ∧ Parent p d := by
  have hholds := (h.holds_iff hd k).mp hk
  cases k with
  | toBase t =>
      obtain ⟨p, hp, hkey⟩ := hholds
      exact ⟨p, h.tidy.parents d p hd (.inl hp), hkey, .inl hp⟩
  | toInterface t =>
      obtain ⟨p, hp, hkey⟩ := hholds
      exact ⟨p, h.tidy.parents d p hd (.inr hp), hkey, .inr hp⟩

theorem implements_iff (h : Charted es c) (hhost : ∀ d p, Known c d → Parent p d →
    ∃ t, p.key = .host t) {i : Descriptor} (hi : Known c i) (hd : Known c d) :
    Descriptor.Implements i d ↔ Offers es i.key d.key := by
  refine h.transGen_iff (fun p d hd hp => ?_) (fun k d hd hk => ?_) hi hd
  · obtain ⟨t, ht⟩ := hhost d p hd (.inr hp)
    exact ⟨h.tidy.parents d p hd (.inr hp), t, h.sound d _ hd ⟨p, hp, ht⟩, ht⟩
  · obtain ⟨t, hmem, rfl⟩ := hk
    obtain ⟨p, hp, hkey⟩ := (h.holds_iff hd _).mp hmem
    exact ⟨p, h.tidy.parents d p hd (.inr hp), hkey, hp⟩

theorem ancestor_iff (h : Charted es c) (hhost : ∀ d p, Known c d → Parent p d →
    ∃ t, p.key = .host t) {a : Descriptor} (ha : Known c a) (hd : Known c d) :
    Ancestor a d ↔ Above es a.key d.key := by
  refine h.transGen_iff (fun p d hd hp => ?_) (fun k d hd hk => ?_) ha hd
  · obtain ⟨t, ht⟩ := hhost d p hd hp
    refine ⟨h.tidy.parents d p hd hp, ?_⟩
    rcases hp with hp | hp
    · exact ⟨.toBase t, h.sound d _ hd ⟨p, hp, ht⟩, ht⟩
    · exact ⟨.toInterface t, h.sound d _ hd ⟨p, hp, ht⟩, ht⟩
  · obtain ⟨k, hmem, rfl⟩ := hk
    exact h.exists_parent hd hmem

theorem basesFrom (h : Charted es c) (hhost : ∀ d p, Known c d → Parent p d →
    ∃ t, p.key = .host t) (bs : List Descriptor) : ∀ {d : Descriptor}, Known c d →
    d.BaseChain bs → BasesFrom es d.key bs := by
  induction bs with
  | nil =>
      intro d hd hchain t ht
      obtain ⟨p, hp, hkey⟩ := (h.holds_iff hd _).mp ht
      rcases hchain with hb | hb
      · rw [hb] at hp
        cases hp
      · rw [hb] at hp
        cases hp
        exact (TypeKey.host.inj hkey).symm
  | cons b bs ih =>
      intro d hd hchain
      obtain ⟨hb, hno, hchain⟩ := hchain
      have hbd := h.tidy.parents d b hd (.inl hb)
      obtain ⟨t, ht⟩ := hhost d b hd (.inl hb)
      refine ⟨⟨t, h.sound d _ hd ⟨b, hb, ht⟩, ?_, ht⟩, ih hbd hchain⟩
      rintro rfl
      rw [h.tidy.family.unique b objectType hbd h.tidy.object ht] at hno
      cases hno

end Charted

/-- In an orderly catalogue all parents are host types. -/
theorem Orderly.host_of_parent (h : Orderly c) (d p : Descriptor) (hd : Known c d)
    (hp : Parent p d) : ∃ t, p.key = .host t := by
  obtain ⟨k, hk⟩ := h.linked.parents d p hd hp
  have hne : d.key ≠ p.key := fun he =>
    h.family.key_ne_of_ancestor hd (.single hp) he.symm
  obtain ⟨j, -, hj⟩ := h.linked.steps _ _ _ hk hne
  exact ⟨j.target, hj⟩

/-- **Chains of supertypes are exact.**  The supertypes of a type are the base types that were
named, the nearest one first, then the interfaces that were named of the type or its base types,
or by such interfaces, then the object type, each once and none of them the type itself.
Hence a type is assignable to itself, to the object type and to what was named above it, and to
no other one; and this orders the types. -/
theorem supertypes_exact (h : Declares es c) (hi : c.ImplementsInterfaces) :
    (∀ d, Known c d → d.isObject = false → ∃ bases interfaces,
      d.supertypes = bases ++ interfaces ++ [objectType] ∧ BasesFrom es d.key bases ∧
      (∀ i, Known c i → (i ∈ interfaces ↔
        i.isInterface = true ∧ i ∉ bases ∧ ∃ b ∈ d :: bases, Offers es i.key b.key)) ∧
      (∀ x ∈ d.supertypes, Known c x) ∧ Descriptor.Distinct (d :: d.supertypes)) ∧
    (∀ a d, Known c a → Known c d →
      (a.isAssignableFrom d = true ↔ a = d ∨ a = objectType ∨ Above es a.key d.key)) ∧
    (∀ d : Descriptor, d.isAssignableFrom d = true) ∧
    (∀ a d, Known c a → Known c d → a.isAssignableFrom d = true → d.isAssignableFrom a = true →
      a.key = d.key) ∧
    ∀ a d e, Known c a → Known c d → Known c e → a.isAssignableFrom d = true →
      d.isAssignableFrom e = true → a.isAssignableFrom e = true := by
  have hK := h.orderly.family
  have hP := h.orderly.plain hi
  have hcharted := h.charted
  have hhost := h.orderly.host_of_parent
  refine ⟨fun d hd ho => ?_, fun a d ha hd => ?_, fun d => ?_, fun a d ha hd h₁ h₂ => ?_,
    fun a d e ha hd he h₁ h₂ => hK.isAssignableFrom_trans hP ha hd he h₁ h₂⟩
  · obtain ⟨is, heq, hmem⟩ := hK.supertypes_eq hP hd ho
    refine ⟨d.bases, is, heq, hcharted.basesFrom hhost d.bases hd (hK.baseChain_bases hd),
      fun i hi => ?_, fun x hx => hK.mem_chain hd (List.mem_cons_of_mem d hx), hK.distinct_chain hd⟩
    rw [hmem i]
    refine and_congr_right fun _ => and_congr_right fun _ => exists_congr fun b => ?_
    exact and_congr_right fun hb => hcharted.implements_iff hhost hi (hK.known_bases hd b hb)
  · rw [hK.isAssignableFrom_iff hP ha hd, hcharted.ancestor_iff hhost ha hd]
  · simp [Descriptor.isAssignableFrom]
  · rw [hK.antisymm ha hd h₁ h₂]

/-- A figure is a shape, and a player is a figure and a sprite; shapes and sprites are
drawables. -/
def gallery : Catalog :=
  let c := ((new shortPaths).declareInterface (.other "Drawable") []).2
  let c := (c.declareInterface (.other "Shape") [.implements (.other "Drawable")]).2
  let c := (c.declareInterface (.other "Sprite") [.implements (.other "Drawable")]).2
  let c := (c.declare (.other "Figure") [.implements (.other "Shape")]).2
  (c.declare (.other "Player") [.base (.other "Figure"), .implements (.other "Sprite")]).2

/-- What the declarations of `gallery` name. -/
def galleryNamed : List (TypeKey × Caster) :=
  [(.host (.other "Player"), .toBase (.other "Figure")),
   (.host (.other "Player"), .toInterface (.other "Sprite")),
   (.host (.other "Figure"), .toInterface (.other "Shape")),
   (.host (.other "Sprite"), .toInterface (.other "Drawable")),
   (.host (.other "Shape"), .toInterface (.other "Drawable"))]

/-- Interfaces may extend others. -/
theorem suitsInterface_implements (t : HostType) :
    ∀ clause ∈ [Clause.implements t], clause.suitsInterface := by
  intro clause hclause
  rw [List.mem_singleton.mp hclause]
  trivial

theorem declares_gallery : Declares galleryNamed gallery := by
  have hnone {o : Option Descriptor} (h : o.isNone = true) : o = none :=
    Option.isNone_iff_eq_none.mp h
  refine .declare (.other "Player") [.base (.other "Figure"), .implements (.other "Sprite")]
    (.declare (.other "Figure") [.implements (.other "Shape")]
      (.declareInterface (.other "Sprite") [.implements (.other "Drawable")]
        (.declareInterface (.other "Shape") [.implements (.other "Drawable")]
          (.declareInterface (.other "Drawable") [] (.new _ _) ?_ ?_)
          (suitsInterface_implements _) ?_)
        (suitsInterface_implements _) ?_) ?_ ?_) ?_ ?_
  · exact nofun
  · exact hnone (by decide +kernel)
  · exact hnone (by decide +kernel)
  · exact hnone (by decide +kernel)
  · exact hnone (by decide +kernel)
  · exact Nat.zero_le 1
  · exact hnone (by decide +kernel)
  · exact Nat.le_refl 1

/-- The drawable is found above the player because the player can be assigned to it. -/
theorem supertypes_exact_player :
    Above galleryNamed (.host (.other "Drawable")) (.host (.other "Player")) := by
  have htidy := declares_gallery.orderly.tidy
  have hall : ∀ path ∈ ["Drawable", "Player"],
      (gallery.get? (.host (.other path))).isSome = true := by decide +kernel
  have hdrawable := htidy.known_typeOf (hall "Drawable" (by decide))
  have hplayer := htidy.known_typeOf (hall "Player" (by decide))
  have hinterfaces : gallery.ImplementsInterfaces :=
    implementsInterfaces_of_entries (by decide +kernel)
  have hassignable : (gallery.typeOf (.other "Drawable")).1.isAssignableFrom
      (gallery.typeOf (.other "Player")).1 = true := by decide +kernel
  obtain ⟨-, hiff, -⟩ := supertypes_exact declares_gallery hinterfaces
  rcases (hiff _ _ hdrawable hplayer).mp hassignable with he | he | habove
  · have hkeys := congrArg Descriptor.key he
    rw [htidy.key_typeOf, htidy.key_typeOf] at hkeys
    exact absurd hkeys (by decide)
  · have hkeys := congrArg Descriptor.key he
    rw [htidy.key_typeOf] at hkeys
    exact absurd hkeys (by decide)
  · rwa [htidy.key_typeOf, htidy.key_typeOf] at habove

end Catalog

end ValueText
