/-
  ValueText.Proofs.Types.OwnInterfaces — an interface view stays on the same object.

  The interfaces that a type names, and those that they extend, are its own; others it has from
  its base types.  A base type may provide the same ones, and to see a value as a base type
  gives another object.  The search for a link goes over the own interfaces first, and one of
  these, or the type itself, has a link to each own interface.  So the search, which
  starts anew for each source that it finds, never leaves them.

  Main results:

    • `sources_own`          the search begins with the type and its own interfaces;
    • `Declares.lastLink?_own`  the link to an own interface comes from one of them (step);
    • `Declares.met_own`     a recursion that begins there stays there (run);
    • `own_interface_view`   a cast to an own interface applies no conversion to a base type, if
                             no base type is an interface;
    • `own_interface_left`   otherwise it may.
-/
import ValueText.Proofs.Types.Conversions

namespace ValueText

/-! ## §1. Own interfaces in the order of the search. -/

namespace Descriptor

/-- The interface is named by `d`, or extended by one that is. -/
def Owns (d i : Descriptor) : Prop := i.isInterface = true ∧ Implements i d

/-- None of the base types is an interface.  A base type has values of its own, and an interface
is only a view of values of other types; a type names its interfaces as what it implements. -/
def HasClassBases (d : Descriptor) : Prop := ∀ b ∈ d.bases, b.isInterface = false

namespace Family

variable {K : Descriptor → Prop} {d i : Descriptor}

theorem implementable_of_implements (hK : Family K) (hP : Plain K) (hd : K d)
    (h : Implements i d) : i.Implementable := by
  cases h using Relation.TransGen.head_induction_on with
  | single h => exact hP.implemented _ _ hd h
  | head h hj => exact hP.implemented _ _ (hK.ancestor (Implements.ancestor hj) hd) h

/-- No base type is implemented. -/
theorem not_implements_base (hK : Family K) (hP : Plain K) (hd : K d) (hb : d.HasClassBases)
    (h : i ∈ d.bases) : ¬ Implements i d := by
  intro himp
  rcases hK.implementable_of_implements hP hd himp with hi | ho
  · rw [hb i h] at hi
    cases hi
  · rw [(mem_basesUpTo _ d h).2] at ho
    cases ho

/-- What a type names is followed before what its base types name. -/
theorem mem_reachAll_own (hK : Family K) (hP : Plain K) (hd : K d) (hb : d.HasClassBases)
    (h : Implements i d) : i ∈ reachAll d.bases d.interfaces := by
  have hbases : ∀ b ∈ d.bases, K b := fun b hb => hK.known_bases hd b (List.mem_cons_of_mem _ hb)
  have hinterfaces := hK.known_interfaces hd
  -- Induction from `d` upwards: the interfaces of what was found are found.
  induction h using Relation.TransGen.head_induction_on with
  | single h => exact hK.mem_reachAll_of_mem d.interfaces hbases hinterfaces _ h
  | head h hj ih =>
      rcases hK.closed_reachAll d.bases d.interfaces hbases hinterfaces ih with hbase | hclosed
      · exact absurd hj (hK.not_implements_base hP hd hb hbase)
      · exact hclosed _ h

/-- **The own interfaces come first** among the interfaces that are found. -/
theorem interfaces_own (hK : Family K) (hP : Plain K) (hd : K d) (ho : d.isObject = false)
    (hb : d.HasClassBases) : ∃ own rest, d.supertypes.filter (·.isInterface) = own ++ rest ∧
      ∀ i, i ∈ own ↔ d.Owns i := by
  have hbases : ∀ b ∈ d.bases, K b := fun b hb => hK.known_bases hd b (List.mem_cons_of_mem _ hb)
  obtain ⟨rest, hrest⟩ := prefix_foldl_reachAll d.bases (reachAll d.bases d.interfaces)
  refine ⟨(reachAll d.bases d.interfaces).filter (·.isInterface),
    rest.filter (·.isInterface), ?_, fun i => ?_⟩
  · -- The object type is no interface.
    have hkeep : ∀ x : Descriptor, (x.isInterface && !x.isObject) = x.isInterface := by
      intro x
      cases hx : x.isInterface with
      | false => rfl
      | true => rw [isObject_of_isInterface hx]; rfl
    rw [supertypes, if_neg (by simp [ho]), List.filter_append, List.filter_filter]
    simp only [hkeep]
    rw [ancestors, ← hrest, List.filter_append]
    exact List.append_nil _
  · rw [List.mem_filter]
    constructor
    · rintro ⟨hi, hint⟩
      refine ⟨hint, ?_⟩
      rcases mem_reachAll d.bases d.interfaces hi with hbase | ⟨j, hj, hij⟩
      · rw [hb i hbase] at hint
        cases hint
      · rcases hij with rfl | hij
        · exact .single hj
        · exact (hK.implements_of_ancestor hP hij (hK.known_interfaces hd j hj)
            (hP.implemented j d hd hj)).tail hj
    · rintro ⟨hint, himp⟩
      exact ⟨hK.mem_reachAll_own hP hd hb himp, hint⟩

end Family

end Descriptor

namespace Catalog

open Descriptor (Family Implements objectType)

variable {c : Catalog} {es : List (TypeKey × Caster)} {d i x y : Descriptor} {t : TypeKey}
  {k : Caster} {v : Value} {w : Option View} {T : HostType}

/-- **The search begins with the type and its own interfaces.** -/
theorem sources_own (hK : Family (Known c)) (hP : Descriptor.Plain (Known c)) (hd : Known c d)
    (ho : d.isObject = false) (hb : d.HasClassBases) :
    ∃ own rest, sources d = (d :: own) ++ rest ∧ ∀ i, i ∈ own ↔ d.Owns i := by
  obtain ⟨own, rest, hfilter, hown⟩ := hK.interfaces_own hP hd ho hb
  refine ⟨own, rest ++ d.supertypes.filter (fun x => !x.isInterface), ?_, hown⟩
  rw [sources, hfilter, List.cons_append, List.cons_append, List.append_assoc]

/-! ## §2. Links to own interfaces. -/

/-- A catalogue that declarations made, and a type in it that has no interface as a base type. -/
structure Classed (es : List (TypeKey × Caster)) (c : Catalog) (d : Descriptor) : Prop where
  declares : Declares es c
  interfaces : c.ImplementsInterfaces
  known : Known c d
  object : d.isObject = false
  bases : d.HasClassBases

namespace Classed

variable (h : Classed es c d)

include h

theorem family : Family (Known c) := h.declares.orderly.family

theorem plain : Descriptor.Plain (Known c) := h.declares.orderly.plain h.interfaces

/-- The type itself, and its own interfaces, are known. -/
theorem known_own (hy : y = d ∨ d.Owns y) : Known c y := by
  rcases hy with rfl | hy
  · exact h.known
  · exact h.family.ancestor hy.2.ancestor h.known

/-- An own interface is named by the type itself or by another own interface. -/
theorem named_by (hi : d.Owns i) : ∃ y, (y = d ∨ d.Owns y) ∧ i ∈ y.interfaces := by
  obtain ⟨hint, himp⟩ := hi
  cases himp using Relation.TransGen.head_induction_on with
  | single hid => exact ⟨d, .inl rfl, hid⟩
  | @head _ y hiy hyd =>
      refine ⟨y, .inr ⟨?_, hyd⟩, hiy⟩
      rcases h.family.implementable_of_implements h.plain h.known hyd with hy | ho
      · exact hy
      · -- The object type names nothing.
        rw [h.family.isObject y (h.family.ancestor (Implements.ancestor hyd) h.known) ho] at hiy
        cases hiy

/-- A conversion to an own interface is one to an interface. -/
theorem toInterface (hy : y = d ∨ d.Owns y) (hi : d.Owns i) (hk : Steps c y.key i.key k) :
    ∃ t, k = .toInterface t ∧ i.key = .host t := by
  obtain ⟨hmem, htarget⟩ := h.declares.traced.steps _ _ _ hk
  have hyknown := h.known_own hy
  have hholds := (h.declares.charted.holds_iff hyknown k).mp hmem
  cases k with
  | toInterface t => exact ⟨t, rfl, htarget⟩
  | toBase t =>
      obtain ⟨p, hp, hkey⟩ := hholds
      have hparent : Descriptor.Parent p y := .inl hp
      have hpi : p = i := h.family.unique p i (h.family.parent _ _ hyknown hparent)
        (h.known_own (.inr hi)) (hkey.trans htarget.symm)
      subst hpi
      rcases hy with rfl | hy
      · -- The interface would be a base type.
        have hbase := Descriptor.base_mem_basesUpTo y.key y
          (fun x hx => h.family.key_ne_of_ancestor h.known hx) y List.mem_cons_self p hp
        rcases hbase with ho | hbase
        · rw [Descriptor.isObject_of_isInterface hi.1] at ho
          cases ho
        · have hno := h.bases p hbase
          rw [hi.1] at hno
          cases hno
      · rw [(h.plain.interface y hyknown hy.1).1] at hp
        cases hp

/-- **The last link to an own interface** leads from the type itself or from another own interface,
and makes a view through an interface. -/
theorem lastLink? (hi : d.Owns i) : ∃ y t, (y = d ∨ d.Owns y) ∧ i.key = .host t ∧
    c.lastLink? d i.key = some (y.key, .upcast (.toInterface t)) := by
  obtain ⟨own, rest, hsources, hown⟩ := sources_own h.family h.plain h.known h.object h.bases
  have hlinked := h.declares.orderly.linked.toLinked
  have hne (y : Descriptor) (hparent : Descriptor.Parent i y) (hy : Known c y) : y.key ≠ i.key :=
    fun he => h.family.key_ne_of_ancestor hy (.single hparent) he.symm
  have hself : d.key ≠ i.key := fun he =>
    h.family.key_ne_of_ancestor h.known hi.2.ancestor he.symm
  -- There is a link among the first places of the search, so it is found there.
  have hsome : (((d :: own).filter (·.key ≠ i.key)).findSome? fun s =>
      (c.links.get? (s.key, i.key)).map fun l => (s.key, l)).isSome = true := by
    obtain ⟨y, hy, hiy⟩ := h.named_by hi
    obtain ⟨k, hk⟩ := hlinked.parents y i (h.known_own hy) (.inr hiy)
    rw [List.findSome?_isSome_iff]
    refine ⟨y, List.mem_filter.mpr ⟨?_, decide_eq_true (hne y (.inr hiy) (h.known_own hy))⟩, ?_⟩
    · exact List.mem_cons.mpr (hy.imp id (hown y).mpr)
    · rw [hk]
      rfl
  obtain ⟨⟨s, l⟩, hfound⟩ := Option.isSome_iff_exists.mp hsome
  obtain ⟨y, hy, hget⟩ := List.exists_of_findSome?_eq_some hfound
  obtain ⟨hmem, hyi⟩ := List.mem_filter.mp hy
  obtain ⟨l', hl', he⟩ := Option.map_eq_some_iff.mp hget
  obtain ⟨rfl, rfl⟩ := Prod.mk.inj he
  obtain ⟨j, rfl, -⟩ := hlinked.steps _ _ _ hl' (of_decide_eq_true hyi)
  have hyown : y = d ∨ d.Owns y := (List.mem_cons.mp hmem).imp id (hown y).mp
  obtain ⟨t, rfl, ht⟩ := h.toInterface hyown hi hl'
  refine ⟨y, t, hyown, ht, ?_⟩
  rw [Catalog.lastLink?, if_neg hself, hsources, List.filter_append, List.findSome?_append, hfound]
  rfl

/-! ## §3. The recursion. -/

/-- Nothing is converted for the type itself. -/
theorem not_recurs_self {s : TypeKey} : ¬ Recurs c d s d.key := by
  rintro ⟨k, hlast⟩
  obtain ⟨-, hget⟩ := of_lastLink? hlast
  rw [Catalog.lastLink?, if_pos rfl] at hlast
  obtain ⟨l, hl, he⟩ := Option.map_eq_some_iff.mp hlast
  obtain ⟨rfl, rfl⟩ := Prod.mk.inj he
  exact not_upcast_loop (h.declares.orderly.linked.toLinked.loops _ _ hl)

/-- **A step of the recursion** from an own interface goes to the type itself or to another own
interface, and comes back by a conversion to an interface. -/
theorem recurs_own {s : TypeKey} (hy : y = d ∨ d.Owns y)
    (hlast : c.lastLink? d y.key = some (s, .upcast k)) :
    (∃ x, (x = d ∨ d.Owns x) ∧ x.key = s) ∧ ∃ t, k = .toInterface t := by
  rcases hy with rfl | hy
  · exact absurd ⟨k, hlast⟩ h.not_recurs_self
  · obtain ⟨x, t, hx, -, hfound⟩ := h.lastLink? hy
    rw [hfound] at hlast
    cases hlast
    exact ⟨⟨x, hx, rfl⟩, t, rfl⟩

/-- **A recursion that begins at an own interface** meets only own interfaces and the type
itself. -/
theorem met_own (hi : d.Owns i) (ht : Relation.ReflTransGen (Recurs c d) t i.key) :
    ∃ y, (y = d ∨ d.Owns y) ∧ y.key = t := by
  induction ht using Relation.ReflTransGen.head_induction_on with
  | refl => exact ⟨i, .inr hi, rfl⟩
  | head hstep _ ih =>
      obtain ⟨y, hy, rfl⟩ := ih
      obtain ⟨k, hlast⟩ := hstep
      exact (h.recurs_own hy hlast).1

/-- A value seen as its own type is the value. -/
theorem castEnds_self (hv : Describes c d v) (hends : CastEnds c ⟨v, d⟩ d.key w) :
    w = some (.plain v) := by
  have hcast := ((h.declares.traced.uncircled h.declares.acyclic (d := d)
    (t := .host v.type)).castEnds (v := ⟨v, d⟩)).2
  rw [← hv.key] at hcast
  rw [hends.unique hcast]
  exact cast?_self hv.own hv.key

/-- **The view of a value as one of its own interfaces is of the value itself.** -/
theorem castEnds_own (hv : Describes c d v) (hends : CastEnds c ⟨v, d⟩ t w) :
    ∀ i T, d.Owns i → i.key = .host T → t = .host T → w = some (.through T v) := by
  -- Induction on the recursion: the step goes to the type itself or to another own interface.
  induction hends with
  | upcast hlast hends ih =>
      rintro i T hi hkey rfl
      obtain ⟨y, t, hy, ht, hfound⟩ := h.lastLink? hi
      rw [hkey] at ht hfound
      cases ht
      cases hfound.symm.trans hlast
      rcases hy with rfl | hy
      · rw [h.castEnds_self hv hends]
        rfl
      · obtain ⟨-, t, -, hykey, -⟩ := h.lastLink? hy
        rw [ih y t hy hykey hykey]
        rfl
  | _ hlast =>
      rintro i T hi hkey rfl
      obtain ⟨y, t, -, -, hfound⟩ := h.lastLink? hi
      rw [hkey] at hfound
      cases hfound.symm.trans hlast

/-- What the declarations name as an own interface is one. -/
theorem exists_own (hoffers : Offers es (.host T) d.key) (hT : T ≠ .object) :
    ∃ i, i.key = .host T ∧ d.Owns i := by
  obtain ⟨p, hp, hkey⟩ : ∃ p, Known c p ∧ p.key = .host T := by
    obtain ⟨s, ⟨t, hmem, ht⟩, -⟩ := Relation.TransGen.head'_iff.mp hoffers
    obtain ⟨x, hx, -, p, hp, hkey⟩ := h.declares.charted.complete s _ hmem
    exact ⟨p, h.family.parent p x hx (.inr hp), hkey.trans ht.symm⟩
  have himp : Implements p d := by
    rw [h.declares.charted.implements_iff h.declares.orderly.host_of_parent hp h.known, hkey]
    exact hoffers
  refine ⟨p, hkey, ?_, himp⟩
  rcases h.family.implementable_of_implements h.plain h.known himp with hint | ho
  · exact hint
  · rw [h.family.isObject p hp ho] at hkey
    exact absurd (TypeKey.host.inj hkey).symm hT

end Classed

/-- **An interface view stays on the same object.**  For a value with its own type `R`, of which
no base type is an interface, let `T` be an interface that `R` names, or that such an interface
extends.  However many base types provide it as well, the recursion of the cast meets only `R`
and interfaces of its own, applies no conversion to a base type, and ends with a view of
the value itself. -/
theorem own_interface_view (h : Declares es c) (hi : c.ImplementsInterfaces) {R : Descriptor}
    {c' : Catalog} (hR : c.runtimeType v = (R, c')) (hb : R.HasClassBases)
    (hoffers : Offers es (.host T) R.key) (hT : T ≠ .object) :
    (∀ t, Relation.ReflTransGen (Recurs c' R) t (.host T) →
      (t = R.key ∨ Offers es t R.key) ∧
        ∀ s k, c'.lastLink? R t = some (s, .upcast k) → ∃ i, k = .toInterface i) ∧
    CastEnds c' ⟨v, R⟩ (.host T) (c'.cast? ⟨v, R⟩ T) ∧
    c'.cast? ⟨v, R⟩ T = some (.through T v) := by
  obtain ⟨-, -, hv⟩ := h.orderly.runtimeType v
  have hdeclares := h.runtimeType v
  have hinterfaces := hi.runtimeType v
  rw [hR] at hv hdeclares hinterfaces
  have hobject : R.isObject = false := by
    apply Bool.eq_false_iff.mpr
    intro ho
    have hkey := hv.key
    rw [hdeclares.orderly.family.isObject R hv.known ho] at hkey
    cases v <;> cases hkey
  have hclassed : Classed es c' R := ⟨hdeclares, hinterfaces, hv.known, hobject, hb⟩
  obtain ⟨i, hkey, hown⟩ := hclassed.exists_own hoffers hT
  have hends : CastEnds c' ⟨v, R⟩ (.host T) (c'.cast? ⟨v, R⟩ T) :=
    (hdeclares.traced.uncircled hdeclares.acyclic).castEnds.2
  refine ⟨fun t ht => ?_, hends, hclassed.castEnds_own hv hends i T hown hkey rfl⟩
  rw [← hkey] at ht
  obtain ⟨y, hy, rfl⟩ := hclassed.met_own hown ht
  refine ⟨hy.imp (congrArg Descriptor.key) fun hyown => ?_, fun s k hlast =>
    (hclassed.recurs_own hy hlast).2⟩
  exact (hdeclares.charted.implements_iff hdeclares.orderly.host_of_parent
    (hclassed.known_own hy) hv.known).mp hyown.2

/-- The player is a drawable by itself, as a sprite, and not as a figure. -/
theorem own_interface_view_player :
    let R := (gallery.runtimeType (playerIn gallery).value).1
    let c := (gallery.runtimeType (playerIn gallery).value).2
    R.bases.map (·.key) = [.host (.other "Figure")] ∧
      c.cast? ⟨(playerIn gallery).value, R⟩ (.other "Drawable") =
        some (.through (.other "Drawable") (playerIn gallery).value) := by
  intro R c
  have hinterfaces : gallery.ImplementsInterfaces :=
    implementsInterfaces_of_entries (by decide +kernel)
  have hkey : R.key = .host (.other "Player") := by decide +kernel
  have hbases : R.HasClassBases := by
    intro b hb
    have hall : R.bases.all (fun b => !b.isInterface) = true := by decide +kernel
    simpa using List.all_eq_true.mp hall b hb
  have hoffers : Offers galleryNamed (.host (.other "Drawable")) R.key := by
    rw [hkey]
    exact .head ⟨_, by decide, rfl⟩ (.single ⟨.other "Sprite", by decide, rfl⟩)
  obtain ⟨-, -, hcast⟩ := own_interface_view declares_gallery hinterfaces
    (Prod.eta (gallery.runtimeType (playerIn gallery).value)).symm hbases hoffers (by decide)
  exact ⟨by decide +kernel, hcast⟩

/-- Figures and sprites are drawables, and a player is a sprite, as in the gallery.  But figures are
declared as an interface here, and are the base type of players all the same. -/
def stage : Catalog :=
  let c := ((new shortPaths).declareInterface (.other "Drawable") []).2
  let c := (c.declareInterface (.other "Sprite") [.implements (.other "Drawable")]).2
  let c := (c.declareInterface (.other "Figure") [.implements (.other "Drawable")]).2
  (c.declare (.other "Player") [.base (.other "Figure"), .implements (.other "Sprite")]).2

/-- What the declarations of `stage` name. -/
def stageNamed : List (TypeKey × Caster) :=
  [(.host (.other "Player"), .toBase (.other "Figure")),
   (.host (.other "Player"), .toInterface (.other "Sprite")),
   (.host (.other "Figure"), .toInterface (.other "Drawable")),
   (.host (.other "Sprite"), .toInterface (.other "Drawable"))]

theorem declares_stage : Declares stageNamed stage := by
  have hnone {o : Option Descriptor} (h : o.isNone = true) : o = none :=
    Option.isNone_iff_eq_none.mp h
  refine .declare (.other "Player") [.base (.other "Figure"), .implements (.other "Sprite")]
    (.declareInterface (.other "Figure") [.implements (.other "Drawable")]
      (.declareInterface (.other "Sprite") [.implements (.other "Drawable")]
        (.declareInterface (.other "Drawable") [] (.new _ _) ?_ ?_)
        (suitsInterface_implements _) ?_)
      (suitsInterface_implements _) ?_) ?_ ?_
  · exact nofun
  · exact hnone (by decide +kernel)
  · exact hnone (by decide +kernel)
  · exact hnone (by decide +kernel)
  · exact hnone (by decide +kernel)
  · exact Nat.le_refl 1

/-- **A base type that is an interface is searched before the own interfaces**: the player is seen
as a drawable through the figure, the part of it that belongs to its base type, although it is a
sprite, which is a drawable. -/
theorem own_interface_left : ¬ ∀ (es : List (TypeKey × Caster)) (c c' : Catalog) (v : Value)
    (R : Descriptor) (T : HostType), Declares es c → c.ImplementsInterfaces →
    c.runtimeType v = (R, c') → Offers es (.host T) R.key → T ≠ .object →
    ∀ t, Relation.ReflTransGen (Recurs c' R) t (.host T) →
      ∀ s k, c'.lastLink? R t = some (s, .upcast k) → ∃ i, k = .toInterface i := by
  intro h
  have hinterfaces : stage.ImplementsInterfaces :=
    implementsInterfaces_of_entries (by decide +kernel)
  have hkey : (stage.runtimeType (playerIn stage).value).1.key = .host (.other "Player") := by
    decide +kernel
  have hoffers : Offers stageNamed (.host (.other "Drawable"))
      (stage.runtimeType (playerIn stage).value).1.key := by
    rw [hkey]
    exact .head ⟨_, by decide, rfl⟩ (.single ⟨.other "Sprite", by decide, rfl⟩)
  have hfigure : Recurs (stage.runtimeType (playerIn stage).value).2
      (stage.runtimeType (playerIn stage).value).1
      (.host (.other "Figure")) (.host (.other "Drawable")) :=
    ⟨.toInterface (.other "Drawable"), by decide +kernel⟩
  obtain ⟨i, hi⟩ := h stageNamed stage _ _ _ (.other "Drawable") declares_stage hinterfaces
    (Prod.eta (stage.runtimeType (playerIn stage).value)).symm hoffers (by decide)
    (.host (.other "Figure")) (.single hfigure) (.host (.other "Player"))
    (.toBase (.other "Figure")) (by decide +kernel)
  cases hi

end Catalog

end ValueText
