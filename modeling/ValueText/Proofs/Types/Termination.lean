/-
  ValueText.Proofs.Types.Termination — when the recursion of casts comes to an end.

  To see a value as a type, the last link that leads there is looked up, and the value is first
  seen as the source of that link, in the same way.  Links stay when a type is declared again, and
  each search starts from the value's own type, so nothing keeps the recursion from coming back to
  a type that it has met.

  The recursion is stated here as a relation that knows of no bound.  The search for a route
  counts its steps, and it gives up exactly where the recursion has no end.

  Main results:

    • `CastEnds.uncircled`    a recursion that ends meets no type twice;
    • `routeBack_castEnds`    and one that meets no type twice ends, within the bound;
    • `Redeclares.traced`     conversions lead along what declarations named, those of earlier
                              declarations of a type among them;
    • `cast_ends`             if what was named leads in no circle, all casts end;
    • `cast_endless`          they need not, although the declarations that are in force name no
                              circle.
-/
import ValueText.Proofs.Types.Chains
import ValueText.Proofs.Types.Origins

namespace ValueText.Catalog

variable {c c' : Catalog} {v : TypedValue} {d x : Descriptor} {s t : TypeKey}
  {k : Caster} {w : Option View}

/-! ## §1. The recursion. -/

/-- Seeing the value as the type comes to an end, with a view or without one.  A conversion is
applied to the value seen as the source of its link. -/
inductive CastEnds (c : Catalog) (v : TypedValue) : TypeKey → Option View → Prop
  | unlinked {t : TypeKey} : c.lastLink? v.type t = none → CastEnds c v t none
  | identity {s t : TypeKey} : c.lastLink? v.type t = some (s, .identity) →
      CastEnds c v t (departure? v.type false v.value)
  | textIdentity {s t : TypeKey} : c.lastLink? v.type t = some (s, .textIdentity) →
      CastEnds c v t (departure? v.type true v.value)
  | upcast {s t : TypeKey} {k : Caster} {w : Option View} :
      c.lastLink? v.type t = some (s, .upcast k) → CastEnds c v s w →
      CastEnds c v t (w.map (k.apply c.parts))

/-- To be seen as `t`, values of the type `d` are first seen as `s`. -/
def Recurs (c : Catalog) (d : Descriptor) (s t : TypeKey) : Prop :=
  ∃ k, c.lastLink? d t = some (s, .upcast k)

/-- From `t` on, no type is met twice. -/
def Uncircled (c : Catalog) (d : Descriptor) (t : TypeKey) : Prop :=
  ∀ s, Relation.ReflTransGen (Recurs c d) s t → ¬ Relation.TransGen (Recurs c d) s s

/-- The last link leads from a type of the chain. -/
theorem of_lastLink? {l : Link} (h : c.lastLink? d t = some (s, l)) :
    (∃ x ∈ d.chain, x.key = s) ∧ c.links.get? (s, t) = some l := by
  unfold lastLink? at h
  split at h
  · next hself =>
      obtain ⟨l', hl, he⟩ := Option.map_eq_some_iff.mp h
      obtain ⟨rfl, rfl⟩ := Prod.mk.inj he
      exact ⟨⟨d, List.mem_cons_self, hself⟩, hl⟩
  · obtain ⟨x, hx, hget⟩ := List.exists_of_findSome?_eq_some h
    obtain ⟨l', hl, he⟩ := Option.map_eq_some_iff.mp hget
    obtain ⟨rfl, rfl⟩ := Prod.mk.inj he
    exact ⟨⟨x, mem_sources.mp (List.mem_filter.mp hx).1, rfl⟩, hl⟩

theorem Recurs.steps (h : Recurs c d s t) : ∃ k, Steps c s t k := by
  obtain ⟨k, hk⟩ := h
  exact ⟨k, (of_lastLink? hk).2⟩

theorem Uncircled.source (h : Uncircled c d t) (hs : Recurs c d s t) : Uncircled c d s :=
  fun r hr => h r (hr.tail hs)

theorem CastEnds.unique (h : CastEnds c v t w) {w' : Option View} (h' : CastEnds c v t w') :
    w = w' := by
  induction h generalizing w' with
  | unlinked hlast | identity hlast | textIdentity hlast => cases h' <;> simp_all
  | upcast hlast _ ih =>
      cases h' with
      | upcast hlast' hs =>
          rw [hlast] at hlast'
          cases hlast'
          rw [ih hs]
      | _ => simp_all

theorem CastEnds.acc (h : CastEnds c v t w) : Acc (Recurs c v.type) t := by
  induction h with
  | upcast hlast _ ih =>
      refine .intro _ fun s ⟨k, hk⟩ => ?_
      rw [hlast] at hk
      cases hk
      exact ih
  | _ hlast =>
      refine .intro _ fun s ⟨k, hk⟩ => ?_
      rw [hlast] at hk
      cases hk

/-- Nothing accessible comes before itself. -/
theorem not_self_of_acc {α : Type} {R : α → α → Prop} {a : α} (h : Acc R a) : ¬ R a a := by
  induction h with
  | intro a _ ih => exact fun hself => ih a hself hself

/-- **A recursion that ends meets no type twice.** -/
theorem CastEnds.uncircled (h : CastEnds c v t w) : Uncircled c v.type t := by
  intro s hs
  have hacc : Acc (Recurs c v.type) s := by
    induction hs using Relation.ReflTransGen.head_induction_on with
    | refl => exact h.acc
    | head hstep _ ih => exact ih.inv hstep
  exact not_self_of_acc hacc.transGen

/-! ## §2. The search for a route. -/

/-- The view that a route leads to. -/
def along (parts : Parts) (v : TypedValue) : Route → Option View
  | .none | .endless => none
  | .along fromText casters => (departure? v.type fromText v.value).map (parts.follow casters)

theorem cast?_eq (c : Catalog) (v : TypedValue) (T : HostType) :
    c.cast? v T = along c.parts v (c.route v.type T) := by
  unfold cast? along
  cases c.route v.type T <;> rfl

/-- A type from which the recursion does not come back has fewer types behind it. -/
theorem countP_recurs_lt (hno : ¬ Relation.TransGen (Recurs c d) s s) (hs : Recurs c d s t)
    [DecidablePred fun y : Descriptor => Relation.TransGen (Recurs c d) y.key s]
    [DecidablePred fun y : Descriptor => Relation.TransGen (Recurs c d) y.key t] :
    d.chain.countP (fun y => Relation.TransGen (Recurs c d) y.key s) <
      d.chain.countP (fun y => Relation.TransGen (Recurs c d) y.key t) := by
  obtain ⟨k, hk⟩ := hs
  obtain ⟨⟨x, hx, rfl⟩, -⟩ := of_lastLink? hk
  have hmono (l : List Descriptor) : l.countP (fun y => Relation.TransGen (Recurs c d) y.key x.key)
      ≤ l.countP (fun y => Relation.TransGen (Recurs c d) y.key t) := by
    apply List.countP_mono_left
    intro y _ hy
    rw [decide_eq_true_eq] at hy ⊢
    exact hy.tail ⟨k, hk⟩
  obtain ⟨as, bs, hsplit⟩ := List.append_of_mem hx
  have hbefore := hmono as
  have hafter := hmono bs
  rw [hsplit, List.countP_append, List.countP_append, List.countP_cons, List.countP_cons,
    if_neg (by rwa [decide_eq_true_eq]),
    if_pos (by rw [decide_eq_true_eq]; exact .single ⟨k, hk⟩)]
  omega

open scoped Classical in
/-- **A recursion that meets no type twice ends**, and the search finds where. -/
theorem routeBack_castEnds (fuel : Nat) : ∀ {t : TypeKey}, Uncircled c v.type t →
    v.type.chain.countP (fun y => Relation.TransGen (Recurs c v.type) y.key t) < fuel →
    ∃ w, CastEnds c v t w ∧ ∀ casters, c.routeBack v.type fuel t casters ≠ .endless ∧
      along c.parts v (c.routeBack v.type fuel t casters) = w.map (c.parts.follow casters) := by
  -- Induction on the fuel: with each step, fewer types are left to be met.
  induction fuel with
  | zero => intro t _ hfuel; exact absurd hfuel (Nat.not_lt_zero _)
  | succ fuel ih =>
      intro t hno hfuel
      have hnone : Route.none ≠ .endless := by decide
      have halong (fromText : Bool) (casters : List Caster) :
          Route.along fromText casters ≠ .endless := by intro h; cases h
      unfold routeBack
      cases hlast : c.lastLink? v.type t with
      | none => exact ⟨none, .unlinked hlast, fun casters => ⟨hnone, rfl⟩⟩
      | some last =>
          obtain ⟨s, l⟩ := last
          cases l with
          | identity => exact ⟨_, .identity hlast, fun casters => ⟨halong false casters, rfl⟩⟩
          | textIdentity => exact ⟨_, .textIdentity hlast, fun casters => ⟨halong true casters, rfl⟩⟩
          | upcast k =>
              have hs : Recurs c v.type s t := ⟨k, hlast⟩
              have hfewer := countP_recurs_lt (hno s (.single hs)) hs
              obtain ⟨w, hends, hroute⟩ := ih (hno.source hs) (by omega)
              refine ⟨_, .upcast hlast hends, fun casters => ?_⟩
              obtain ⟨hne, hview⟩ := hroute (k :: casters)
              refine ⟨hne, hview.trans ?_⟩
              rw [Option.map_map]
              rfl

/-- A search that does not give up has followed a recursion that ends. -/
theorem castEnds_of_routeBack (fuel : Nat) : ∀ {t : TypeKey} {casters : List Caster},
    c.routeBack v.type fuel t casters ≠ .endless → ∃ w, CastEnds c v t w := by
  induction fuel with
  | zero => exact fun h => absurd rfl h
  | succ fuel ih =>
      intro t casters h
      unfold routeBack at h
      cases hlast : c.lastLink? v.type t with
      | none => exact ⟨_, .unlinked hlast⟩
      | some last =>
          obtain ⟨s, l⟩ := last
          rw [hlast] at h
          cases l with
          | identity => exact ⟨_, .identity hlast⟩
          | textIdentity => exact ⟨_, .textIdentity hlast⟩
          | upcast k =>
              obtain ⟨w, hends⟩ := ih h
              exact ⟨_, .upcast hlast hends⟩

open scoped Classical in
/-- **The recursion ends** wherever it meets no type twice, with the view that the search finds. -/
theorem Uncircled.castEnds {T : HostType} (h : Uncircled c v.type (.host T)) :
    c.route v.type T ≠ .endless ∧ CastEnds c v (.host T) (c.cast? v T) := by
  have hbound := List.countP_le_length (l := v.type.chain)
    (p := fun y => Relation.TransGen (Recurs c v.type) y.key (.host T))
  obtain ⟨w, hends, hroute⟩ := routeBack_castEnds (v.type.chain.length + 2) h (by omega)
  obtain ⟨hne, hview⟩ := hroute []
  refine ⟨hne, ?_⟩
  rw [cast?_eq, route, hview, show c.parts.follow [] = id from rfl, Option.map_id]
  exact hends

/-- **The search answers that there is a circle iff the recursion has no end.** -/
theorem route_eq_endless_iff {T : HostType} :
    c.route v.type T = .endless ↔ ¬ ∃ w, CastEnds c v (.host T) w := by
  constructor
  · rintro hroute ⟨w, hends⟩
    exact hends.uncircled.castEnds.1 hroute
  · intro hno
    by_contra hroute
    exact hno (castEnds_of_routeBack _ hroute)

/-! ## §3. Declarations in any order. -/

/-- A catalogue that declarations made in any order, also several of one type; they named the
supertypes `es`. -/
inductive Redeclares : List (TypeKey × Caster) → Catalog → Prop
  | new (spelling : HostSpelling) (parts : Parts) : Redeclares [] (new spelling parts)
  | typeOf {es} {c : Catalog} (t : HostType) : Redeclares es c → Redeclares es (c.typeOf t).2
  | describe {es} {c : Catalog} (t : HostType) : Redeclares es c → Redeclares es (c.describe t).2
  | genericDefinition {es} {c : Catalog} (space : Option String) (name : String) (arity : Nat) :
      Redeclares es c → Redeclares es (c.genericDefinition space name arity).2
  | genericParameter {es} {c : Catalog} (name : String) :
      Redeclares es c → Redeclares es (c.genericParameter name).2
  | pointerTo {es} {c : Catalog} (d : Descriptor) : Redeclares es c → Redeclares es (c.pointerTo d).2
  | byRef {es} {c : Catalog} (d : Descriptor) : Redeclares es c → Redeclares es (c.byRef d).2
  | declare {es} {c : Catalog} (t : HostType) (clauses : List Clause) : Redeclares es c →
      Redeclares (namedBy t clauses ++ es) (c.declare t clauses).2
  | declareEnumeration {es} {c : Catalog} (t : HostType) (members : Enumeration.Declared)
      (clauses : List Clause) : Redeclares es c →
      Redeclares (namedBy t clauses ++ es) (c.declareEnumeration t members clauses).2
  | declareInterface {es} {c : Catalog} (t : HostType) (clauses : List Clause) : Redeclares es c →
      Redeclares (namedBy t clauses ++ es) (c.declareInterface t clauses).2
  | declareNullable {es} {c : Catalog} (t : HostType) : Redeclares es c →
      Redeclares es (c.declareNullable t).2
  | declareArray {es} {c : Catalog} (t : HostType) : Redeclares es c → Redeclares es (c.declareArray t).2

variable {es : List (TypeKey × Caster)}

/-- Every conversion was named by a declaration. -/
structure Traced (es : List (TypeKey × Caster)) (c : Catalog) : Prop where
  keyed : ∀ k d, c.get? k = some d → d.key = k
  steps : ∀ s t k, Steps c s t k → (s, k) ∈ es ∧ t = .host k.target

namespace Traced

theorem key_typeOf (h : Traced es c) (t : HostType) : (c.typeOf t).1.key = .host t := by
  unfold Catalog.typeOf
  split
  · next hget => exact h.keyed _ _ hget
  · rfl

/-- Another type becomes known. -/
theorem insert (h : Traced es c) (d : Descriptor) : Traced es (c.insert d) := by
  refine ⟨fun k x hx => ?_, h.steps⟩
  rw [get?_insert] at hx
  split at hx
  · next hkey =>
      cases hx
      exact hkey
  · exact h.keyed k x hx

theorem typeOf (h : Traced es c) (t : HostType) : Traced es (c.typeOf t).2 := by
  unfold Catalog.typeOf
  split
  · exact h
  · exact h.insert _

theorem named (h : Traced es c) (key : String) (make : TypeKey → Descriptor) :
    Traced es (c.named key make).2 := by
  unfold Catalog.named
  split
  · exact h
  · exact h.insert _

/-- A link by which a type is seen as itself is no conversion. -/
theorem loop (h : Traced es c) (k : TypeKey) : Traced es (c.insertLink k k .identity) := by
  refine ⟨h.keyed, fun s t j hs => ?_⟩
  rw [Steps, get?_insertLink] at hs
  split at hs
  · cases hs
  · exact h.steps s t j hs

theorem describe (h : Traced es c) (t : HostType) : Traced es (c.describe t).2 := by
  refine ⟨(h.typeOf t).keyed, fun s t' k hs => ?_⟩
  rw [Steps, links_describe, get?_insertNew] at hs
  split at hs
  · cases hs
  · exact (h.typeOf t).steps s t' k hs

theorem mention (h : Traced es c) (clause : Clause) : Traced es (c.mention clause) := by
  cases clause with
  | nestedIn t => exact h.typeOf t
  | base t => exact h.typeOf t
  | implements t => exact h.typeOf t
  | _ => exact h

/-- A draft gets a link for each supertype that its clauses name. -/
theorem links_addAll (clauses : List Clause) : ∀ {c : Catalog} {d : Draft}, Traced es c →
    Traced es (d.addAll c clauses).2 ∧ ∀ l ∈ (d.addAll c clauses).1.links,
      l ∈ d.links ∨ ∃ k ∈ clauses.filterMap Clause.caster?, l = (.host k.target, .upcast k) := by
  induction clauses with
  | nil => exact fun h => ⟨h, fun l hl => .inl hl⟩
  | cons clause rest ih =>
      intro c d h
      have hclause : ∀ l ∈ (d.add c clause).1.links,
          l ∈ d.links ∨ ∃ k, clause.caster? = some k ∧ l = (.host k.target, .upcast k) := by
        intro l hl
        cases clause with
        | base t | implements t =>
            rcases List.mem_append.mp hl with hl | hl
            · exact .inl hl
            · rw [List.mem_singleton.mp hl]
              exact .inr ⟨_, rfl, Prod.ext (h.key_typeOf t) rfl⟩
        | _ => exact .inl hl
      have hnext : Traced es (d.add c clause).2 := by
        have hmention := h.mention clause
        cases clause <;> exact hmention
      obtain ⟨htraced, hlinks⟩ := ih hnext (d := (d.add c clause).1)
      refine ⟨htraced, fun l hl => ?_⟩
      rcases hlinks l hl with hl | ⟨k, hk, he⟩
      · rcases hclause l hl with hl | ⟨k, hk, he⟩
        · exact .inl hl
        · exact .inr ⟨k, List.mem_filterMap.mpr ⟨clause, List.mem_cons_self, hk⟩, he⟩
      · obtain ⟨clause', hmem, hk⟩ := List.mem_filterMap.mp hk
        exact .inr ⟨k, List.mem_filterMap.mpr ⟨clause', List.mem_cons_of_mem _ hmem, hk⟩, he⟩

/-- **Publishing a draft** adds the conversions that were named, and the ones of an earlier
declaration stay. -/
theorem publish (h : Traced es c) {t : HostType} {clauses : List Clause} {d : Draft}
    (hkey : d.descriptor.key = .host t) (hlinks : ∀ l ∈ d.links,
      ∃ k ∈ clauses.filterMap Clause.caster?, l = (.host k.target, .upcast k)) :
    Traced (namedBy t clauses ++ es) (c.publish d).2 := by
  obtain ⟨hothers, hfound, -⟩ := links_foldl d.descriptor.key d.links c
  refine ⟨fun k x hx => ?_, fun s t' k hs => ?_⟩
  · rw [get?, types_publish] at hx
    exact (h.insert d.descriptor).keyed k x hx
  · by_cases hself : s = d.descriptor.key
    · subst hself
      rcases hfound t' _ hs with hl | hl
      · obtain ⟨j, hj, he⟩ := hlinks _ hl
        obtain ⟨rfl, hkj⟩ := Prod.mk.inj he
        cases hkj
        exact ⟨List.mem_append_left _ (mem_namedBy.mpr ⟨hkey, hj⟩), rfl⟩
      · obtain ⟨hmem, ht⟩ := h.steps _ _ _ hl
        exact ⟨List.mem_append_right _ hmem, ht⟩
    · have hold : c.links.get? (s, t') = some (.upcast k) := by
        rw [← hothers s t' hself]
        exact hs
      obtain ⟨hmem, ht⟩ := h.steps _ _ _ hold
      exact ⟨List.mem_append_right _ hmem, ht⟩

/-- What a draft that started without links gets from its clauses. -/
theorem links_start (h : Traced es c) (t : HostType) (start : Descriptor) (clauses : List Clause) :
    Traced es (Draft.addAll c ⟨t, start, []⟩ clauses).2 ∧
      ∀ l ∈ (Draft.addAll c ⟨t, start, []⟩ clauses).1.links,
        ∃ k ∈ clauses.filterMap Clause.caster?, l = (.host k.target, .upcast k) := by
  obtain ⟨htraced, hlinks⟩ := links_addAll clauses h (d := ⟨t, start, []⟩)
  exact ⟨htraced, fun l hl => (hlinks l hl).resolve_left nofun⟩

theorem declareFrom (h : Traced es c) {t : HostType} {start : Descriptor}
    (hkey : start.key = .host t) (clauses : List Clause) :
    Traced (namedBy t clauses ++ es) (c.declareFrom t start clauses).2 := by
  obtain ⟨htraced, hlinks⟩ := h.links_start t start clauses
  exact (htraced.loop _).publish ((addAll_nullable clauses c ⟨t, start, []⟩).2.trans hkey) hlinks

theorem declareInterface (h : Traced es c) (t : HostType) (clauses : List Clause) :
    Traced (namedBy t clauses ++ es) (c.declareInterface t clauses).2 := by
  obtain ⟨htraced, hlinks⟩ := h.links_start t (c.start t .interface) clauses
  exact htraced.publish (addAll_nullable clauses c ⟨t, c.start t .interface, []⟩).2 hlinks

end Traced

/-- **Every conversion was named by a declaration**, an earlier one of its type perhaps. -/
theorem Redeclares.traced (h : Redeclares es c) : Traced es c := by
  induction h with
  | new spelling parts =>
      refine ⟨(flat_new spelling parts).tidy.keyed, fun s t k hs => ?_⟩
      exact absurd ((looped_new spelling parts).1 s t _ hs).2.1 not_upcast_loop
  | typeOf t _ ih => exact ih.typeOf t
  | describe t _ ih => exact ih.describe t
  | genericDefinition space name arity _ ih => exact ih.named _ _
  | genericParameter name _ ih => exact ih.named _ _
  | pointerTo d _ ih => exact ih.named _ _
  | byRef d _ ih => exact ih.named _ _
  | declare t clauses _ ih => exact ih.declareFrom rfl clauses
  | declareEnumeration t members clauses _ ih => exact ih.declareFrom rfl clauses
  | declareInterface t clauses _ ih => exact ih.declareInterface t clauses
  | declareNullable t _ ih => exact (ih.typeOf t).declareFrom rfl []
  | declareArray t _ ih => exact (ih.typeOf t).declareFrom rfl []

/-- What was named leads in no circle. -/
def Acyclic (es : List (TypeKey × Caster)) : Prop := ∀ k, ¬ Above es k k

/-- The recursion goes up along what was named, from below. -/
theorem Traced.above (h : Traced es c) (hs : Relation.TransGen (Recurs c d) s t) :
    Above es t s := by
  induction hs with
  | single hs =>
      obtain ⟨k, hk⟩ := hs.steps
      exact .single ⟨k, h.steps _ _ k hk⟩
  | tail _ hs ih =>
      obtain ⟨k, hk⟩ := hs.steps
      exact .head ⟨k, h.steps _ _ k hk⟩ ih

theorem Traced.uncircled (h : Traced es c) (hno : Acyclic es) : Uncircled c d t :=
  fun s _ hcircle => hno s (h.above hcircle)

/-! ## §4. Casts. -/

/-- **Casts end.**  In every catalogue that declarations made, a cast ends iff its recursion meets
no type twice, and then with what `cast?` answers; the search for a route gives up in the other
cases only.  If what declarations named leads in no circle, every cast of every value ends. -/
theorem cast_ends (h : Redeclares es c) (v : TypedValue) (T : HostType) :
    ((∃ w, CastEnds c v (.host T) w) ↔ Uncircled c v.type (.host T)) ∧
    (∀ w, CastEnds c v (.host T) w → c.route v.type T ≠ .endless ∧ w = c.cast? v T) ∧
    (Acyclic es → CastEnds c v (.host T) (c.cast? v T)) := by
  refine ⟨⟨fun ⟨w, hends⟩ => hends.uncircled, fun hno => ⟨_, hno.castEnds.2⟩⟩,
    fun w hends => ?_, fun hno => (h.traced.uncircled hno).castEnds.2⟩
  obtain ⟨hne, hcast⟩ := hends.uncircled.castEnds
  exact ⟨hne, hends.unique hcast⟩

/-- A type that is declared before it is mentioned is not named above itself. -/
theorem Declares.acyclic (h : Declares es c) : Acyclic es := by
  obtain ⟨rank, hrank⟩ := h.orderly.linked.ordered
  have hlt {a s : TypeKey} (habove : Above es a s) : rank a < rank s := by
    have hstep {a s : TypeKey} (hk : ∃ k, (s, k) ∈ es ∧ a = .host k.target) : rank a < rank s := by
      obtain ⟨k, hk, rfl⟩ := hk
      obtain ⟨d, hd, rfl, -⟩ := h.charted.complete s k hk
      obtain ⟨p, -, hkey, hp⟩ := h.charted.exists_parent hd hk
      obtain ⟨j, hj⟩ := h.orderly.linked.parents d p hd hp
      rw [← hkey]
      exact hrank _ _ j hj
    induction habove with
    | single hs => exact hstep hs
    | tail _ hs ih => exact Nat.lt_trans ih (hstep hs)
  exact fun k hcircle => Nat.lt_irrefl _ (hlt hcircle)

theorem Declares.redeclares (h : Declares es c) : Redeclares es c := by
  induction h with
  | new spelling parts => exact .new spelling parts
  | typeOf t _ ih => exact .typeOf t ih
  | describe t _ ih => exact .describe t ih
  | genericDefinition space name arity _ ih => exact .genericDefinition space name arity ih
  | genericParameter name _ ih => exact .genericParameter name ih
  | pointerTo d _ ih => exact .pointerTo d ih
  | byRef d _ ih => exact .byRef d ih
  | declare t clauses _ _ _ ih => exact .declare t clauses ih
  | declareEnumeration t members clauses _ _ _ ih => exact .declareEnumeration t members clauses ih
  | declareInterface t clauses _ _ _ ih => exact .declareInterface t clauses ih
  | declareNullable t _ _ ih => exact .declareNullable t ih
  | declareArray t _ _ ih => exact .declareArray t ih

/-- A player, as a value of its own type. -/
def playerIn (c : Catalog) : TypedValue :=
  ⟨.object "Player" "p" none .complete [], (c.typeOf (.other "Player")).1⟩

/-- The player of the gallery is a drawable through the figure and the shape. -/
theorem cast_ends_player : ∃ w, w.type = .other "Drawable" ∧
    CastEnds gallery (playerIn gallery) (.host (.other "Drawable")) (some w) := by
  have hcast : (gallery.cast? (playerIn gallery) (.other "Drawable")).map View.type =
      some (.other "Drawable") := by decide +kernel
  obtain ⟨w, hw, htype⟩ := Option.map_eq_some_iff.mp hcast
  refine ⟨w, htype, ?_⟩
  rw [← hw]
  exact (cast_ends declares_gallery.redeclares _ _).2.2 declares_gallery.acyclic

/-- A shape was a sprite at first.  Then it was declared again, as no sprite, and sprites were
declared to be shapes.  A figure is both, and a player is a figure. -/
def revised : Catalog :=
  let c := ((new shortPaths).declareInterface (.other "Shape") [.implements (.other "Sprite")]).2
  let c := (c.declareInterface (.other "Shape") []).2
  let c := (c.declareInterface (.other "Sprite") [.implements (.other "Shape")]).2
  let c := (c.declare (.other "Figure")
    [.implements (.other "Shape"), .implements (.other "Sprite")]).2
  (c.declare (.other "Player") [.base (.other "Figure")]).2

/-- What the declarations of `revised` name that are the last ones of their types. -/
def revisedNamed : List (TypeKey × Caster) :=
  [(.host (.other "Player"), .toBase (.other "Figure")),
   (.host (.other "Figure"), .toInterface (.other "Shape")),
   (.host (.other "Figure"), .toInterface (.other "Sprite")),
   (.host (.other "Sprite"), .toInterface (.other "Shape"))]

theorem redeclares_revised : Redeclares
    (revisedNamed ++ [(.host (.other "Shape"), .toInterface (.other "Sprite"))]) revised :=
  .declare (.other "Player") [.base (.other "Figure")]
    (.declare (.other "Figure") [.implements (.other "Shape"), .implements (.other "Sprite")]
      (.declareInterface (.other "Sprite") [.implements (.other "Shape")]
        (.declareInterface (.other "Shape") []
          (.declareInterface (.other "Shape") [.implements (.other "Sprite")] (.new _ _)))))

/-- The declarations that are in force name no circle. -/
theorem acyclic_revisedNamed : Acyclic revisedNamed := by
  let rank : TypeKey → Nat := fun k =>
    ["Shape", "Sprite", "Figure", "Player"].findIdx fun path => k = .host (.other path)
  have hrank : ∀ e ∈ revisedNamed, rank (.host e.2.target) < rank e.1 := by decide
  have hlt {a s : TypeKey} (habove : Above revisedNamed a s) : rank a < rank s := by
    induction habove with
    | single hs =>
        obtain ⟨k, hk, rfl⟩ := hs
        exact hrank _ hk
    | tail _ hs ih =>
        obtain ⟨k, hk, rfl⟩ := hs
        exact Nat.lt_trans ih (hrank _ hk)
  exact fun k hcircle => Nat.lt_irrefl _ (hlt hcircle)

/-- **A cast need not end.**  The player is seen as a shape through the sprite, and as a sprite
through the shape that it was at first, and so on for ever, although only the link of an outdated
declaration closes the circle. -/
theorem cast_endless : Redeclares
      (revisedNamed ++ [(.host (.other "Shape"), .toInterface (.other "Sprite"))]) revised ∧
    Acyclic revisedNamed ∧
    ¬ ∃ w, CastEnds revised (playerIn revised) (.host (.other "Shape")) w :=
  ⟨redeclares_revised, acyclic_revisedNamed, route_eq_endless_iff.mp (by decide +kernel)⟩

end ValueText.Catalog
