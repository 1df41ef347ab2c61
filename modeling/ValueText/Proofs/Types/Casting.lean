/-
  ValueText.Proofs.Types.Casting — values are seen as the types that theirs can be assigned to.

  Whether a value can be used as a type is told by the list of its type's supertypes; how
  it is seen as that type, by links.  Both come from the same declarations.  A type in
  the list was found as the parent of another one there, so there is a link from
  that one to it, and the search for links, which goes backwards, comes closer to
  the value's own type with each step.

  The object type is in every list and is the parent of nothing.  Only a link that was
  declared by hand leads to it.

  Main results:

    • `exists_parent`   a supertype was found as a parent;
    • `route_leads`     there is a route to each type that a link leads to;
    • `cast?_of_reached`  along which a value becomes a view of the type;
    • `cast?_eq_none`   and none to a type that no link leads to;
    • `Orderly.runtimeType`  a value with its own type can be seen as itself.
-/
import ValueText.Proofs.Types.Links

namespace ValueText

/-! ## §1. Supertypes are parents. -/

namespace Descriptor

theorem exists_parent_bases (self : TypeKey) : ∀ (d : Descriptor) {x : Descriptor},
    x ∈ basesUpTo self d → ∃ y, (y = d ∨ y ∈ basesUpTo self d) ∧ Parent x y
  | ⟨_, _, none, _, _, _, _, _, _⟩, x, h => by simp [basesUpTo] at h
  | ⟨facts, outer, some base, interfaces, definition, arguments, element, nullable, sequence⟩,
      x, h => by
      unfold basesUpTo at h ⊢
      split at h
      · cases h
      · next hstop =>
          rw [if_neg hstop]
          rcases List.mem_cons.mp h with rfl | h
          · exact ⟨_, .inl rfl, .inl rfl⟩
          · obtain ⟨y, hy, hp⟩ := exists_parent_bases self base h
            refine ⟨y, .inr ?_, hp⟩
            rcases hy with rfl | hy
            · exact List.mem_cons_self
            · exact List.mem_cons_of_mem _ hy

mutual

theorem exists_parent_reach (found : List Descriptor) : ∀ (d : Descriptor) {x : Descriptor},
    x ∈ reach found d → x ∈ found ∨ x = d ∨ ∃ y ∈ reach found d, Parent x y
  | ⟨facts, outer, base, interfaces, definition, arguments, element, nullable, sequence⟩, x, h => by
      unfold reach at h ⊢
      split at h
      · exact .inl h
      · next hnew =>
          rw [if_neg hnew]
          rcases exists_parent_reachAll _ interfaces h with hfound | hi | ⟨y, hy, hp⟩
          · rcases List.mem_append.mp hfound with hfound | hself
            · exact .inl hfound
            · exact .inr (.inl (List.mem_singleton.mp hself))
          · -- An interface of `d`, which was added before its interfaces.
            have hparent : Parent x
                ⟨facts, outer, base, interfaces, definition, arguments, element, nullable,
                  sequence⟩ := .inr hi
            refine .inr (.inr ⟨_, (prefix_reachAll _ interfaces).subset ?_, hparent⟩)
            exact List.mem_append_right _ List.mem_cons_self
          · exact .inr (.inr ⟨y, hy, hp⟩)

theorem exists_parent_reachAll (found : List Descriptor) :
    ∀ (ds : List Descriptor) {x : Descriptor},
      x ∈ reachAll found ds → x ∈ found ∨ x ∈ ds ∨ ∃ y ∈ reachAll found ds, Parent x y
  | [], x, h => .inl h
  | i :: is, x, h => by
      unfold reachAll at h ⊢
      rcases exists_parent_reachAll (reach found i) is h with hfound | hi | hy
      · rcases exists_parent_reach found i hfound with hfound | rfl | ⟨y, hy, hp⟩
        · exact .inl hfound
        · exact .inr (.inl List.mem_cons_self)
        · exact .inr (.inr ⟨y, (prefix_reachAll _ is).subset hy, hp⟩)
      · exact .inr (.inl (List.mem_cons_of_mem _ hi))
      · exact .inr (.inr hy)

end

theorem exists_parent_foldl (bs : List Descriptor) : ∀ {found : List Descriptor} {x : Descriptor},
    x ∈ bs.foldl (fun found b => reachAll found b.interfaces) found →
      x ∈ found ∨ ∃ y, (y ∈ bs ∨ y ∈ bs.foldl (fun found b => reachAll found b.interfaces) found) ∧
        Parent x y := by
  induction bs with
  | nil => intro found x h; exact .inl h
  | cons b bs ih =>
      intro found x h
      rw [List.foldl_cons] at h ⊢
      rcases ih h with hfound | ⟨y, hy, hp⟩
      · rcases exists_parent_reachAll found b.interfaces hfound with hfound | hi | ⟨y, hy, hp⟩
        · exact .inl hfound
        · exact .inr ⟨b, .inl List.mem_cons_self, .inr hi⟩
        · exact .inr ⟨y, .inr ((prefix_foldl_reachAll bs _).subset hy), hp⟩
      · exact .inr ⟨y, hy.imp (List.mem_cons_of_mem _) id, hp⟩

/-- **An ancestor that was found is a parent** of the type or of another one that was found. -/
theorem exists_parent {d x : Descriptor} (h : x ∈ d.ancestors) :
    ∃ y, (y = d ∨ y ∈ d.ancestors) ∧ Parent x y := by
  have hbases : d.bases ⊆ d.ancestors := by
    rw [ancestors_eq_foldl]
    exact (prefix_foldl_reachAll _ _).subset
  rw [ancestors_eq_foldl] at h
  rcases exists_parent_foldl _ h with hbase | ⟨y, hy | hy, hp⟩
  · obtain ⟨y, hy, hp⟩ := exists_parent_bases d.key d hbase
    exact ⟨y, hy.imp id fun hy => hbases hy, hp⟩
  · rcases List.mem_cons.mp hy with rfl | hy
    · exact ⟨_, .inl rfl, hp⟩
    · exact ⟨y, .inr (hbases hy), hp⟩
  · exact ⟨y, .inr hy, hp⟩

theorem not_parent_objectType {x : Descriptor} : ¬ Parent x objectType := by
  rintro (h | h)
  · cases h
  · cases h

/-- A supertype other than the object type is a parent of a type in the chain. -/
theorem Family.exists_parent_chain {K : Descriptor → Prop} (hK : Family K) {d x : Descriptor}
    (hd : K d) (h : x ∈ d.supertypes) (ho : x ≠ objectType) : ∃ y ∈ d.chain, Parent x y := by
  have hx : x ∈ d.ancestors := by
    unfold supertypes at h
    split at h
    · exact h
    · rcases List.mem_append.mp h with h | h
      · exact (List.mem_filter.mp h).1
      · exact absurd (List.mem_singleton.mp h) ho
  obtain ⟨y, hy, hp⟩ := exists_parent hx
  refine ⟨y, ?_, hp⟩
  rcases hy with rfl | hy
  · exact List.mem_cons_self
  · refine List.mem_cons_of_mem _ ?_
    -- The object type has no parents, so it is not the one that was found.
    have hother : y.isObject = false := by
      apply Bool.eq_false_iff.mpr
      intro hobject
      have hknown := hK.ancestor (ancestor_of_mem hy) hd
      rw [hK.isObject y hknown hobject] at hp
      exact not_parent_objectType hp
    unfold supertypes
    split
    · exact hy
    · exact List.mem_append_left _ (List.mem_filter.mpr ⟨hy, by rw [hother]; rfl⟩)

end Descriptor

namespace Catalog

open Descriptor (objectType)

variable {c : Catalog} {d x : Descriptor} {s t : TypeKey} {k : Caster}

/-! ## §2. The last link. -/

theorem mem_sources : x ∈ sources d ↔ x ∈ d.chain := by
  unfold sources Descriptor.chain
  simp only [List.cons_append, List.mem_cons, List.mem_append, List.mem_filter]
  constructor
  · rintro (rfl | ⟨h, -⟩ | ⟨h, -⟩)
    · exact .inl rfl
    · exact .inr h
    · exact .inr h
  · rintro (rfl | h)
    · exact .inl rfl
    · cases hi : x.isInterface with
      | true => exact .inr (.inl ⟨h, rfl⟩)
      | false => exact .inr (.inr ⟨h, rfl⟩)

theorem not_upcast_loop {k : TypeKey} {j : Caster} : Link.upcast j ≠ loop k := by
  unfold loop
  split <;> exact nofun

/-- A conversion leads to another type. -/
theorem Linked.ne_of_steps (h : Linked c) (hs : Steps c s t k) : s ≠ t := by
  rintro rfl
  exact not_upcast_loop (h.loops _ _ hs)

/-- **The last link is a conversion** from a type of the chain, if there is any. -/
theorem Linked.lastLink?_of_steps (h : Linked c) (hself : d.key ≠ t)
    (hx : ∃ x ∈ d.chain, ∃ k, Steps c x.key t k) :
    ∃ x ∈ d.chain, ∃ k, c.lastLink? d t = some (x.key, .upcast k) ∧ Steps c x.key t k ∧
      t = .host k.target := by
  obtain ⟨x, hx, k, hk⟩ := hx
  have hsome : (((sources d).filter (·.key ≠ t)).findSome? fun s =>
      (c.links.get? (s.key, t)).map fun l => (s.key, l)).isSome = true := by
    rw [List.findSome?_isSome_iff]
    refine ⟨x, List.mem_filter.mpr ⟨mem_sources.mpr hx, ?_⟩, ?_⟩
    · exact decide_eq_true (h.ne_of_steps hk)
    · rw [hk]
      rfl
  obtain ⟨⟨s, l⟩, hfound⟩ := Option.isSome_iff_exists.mp hsome
  obtain ⟨y, hy, hget⟩ := List.exists_of_findSome?_eq_some hfound
  obtain ⟨hsource, hne⟩ := List.mem_filter.mp hy
  obtain ⟨l', hl', he⟩ := Option.map_eq_some_iff.mp hget
  obtain ⟨rfl, rfl⟩ := Prod.mk.inj he
  obtain ⟨j, rfl, ht⟩ := h.steps _ _ _ hl' (of_decide_eq_true hne)
  refine ⟨y, mem_sources.mp hsource, j, ?_, hl', ht⟩
  rw [lastLink?, if_neg hself, hfound]

/-- Without a conversion there is no last link. -/
theorem Linked.lastLink?_eq_none (h : Linked c) (hself : d.key ≠ t)
    (hno : ∀ x ∈ d.chain, ∀ k, ¬ Steps c x.key t k) : c.lastLink? d t = none := by
  rw [lastLink?, if_neg hself, List.findSome?_eq_none_iff]
  intro x hx
  obtain ⟨hsource, hne⟩ := List.mem_filter.mp hx
  cases hl : c.links.get? (x.key, t) with
  | none => rfl
  | some l =>
      obtain ⟨k, rfl, -⟩ := h.steps _ _ _ hl (of_decide_eq_true hne)
      exact absurd hl (hno x (mem_sources.mp hsource) k)

/-! ## §3. Routes. -/

/-- The conversions lead from one type to another, each from a type of the chain. -/
def Leads (c : Catalog) (d : Descriptor) : TypeKey → List Caster → TypeKey → Prop
  | s, [], t => s = t
  | s, k :: ks, t =>
      (∃ x ∈ d.chain, x.key = s) ∧ Steps c s (.host k.target) k ∧
        Leads c d (.host k.target) ks t

theorem Leads.snoc (hx : x ∈ d.chain) (hk : Steps c x.key (.host k.target) k) :
    ∀ {s : TypeKey} {ks : List Caster}, Leads c d s ks x.key →
      Leads c d s (ks ++ [k]) (.host k.target)
  | _, [], h => ⟨⟨x, hx, h.symm⟩, by rw [h]; exact hk, rfl⟩
  | _, _ :: _, ⟨hs, hstep, h⟩ => ⟨hs, hstep, Leads.snoc hx hk h⟩

/-- Further back, fewer types of the chain come later. -/
theorem countP_later_lt {rank : TypeKey → Nat} {ds : List Descriptor} (hx : x ∈ ds)
    (hlt : rank t < rank x.key) :
    ds.countP (fun y => rank x.key < rank y.key) < ds.countP (fun y => rank t < rank y.key) := by
  obtain ⟨as, bs, rfl⟩ := List.append_of_mem hx
  have hmono (l : List Descriptor) : l.countP (fun y => rank x.key < rank y.key) ≤
      l.countP (fun y => rank t < rank y.key) := by
    apply List.countP_mono_left
    intro y _ hy
    rw [decide_eq_true_eq] at hy ⊢
    omega
  have hbefore := hmono as
  have hafter := hmono bs
  rw [List.countP_append, List.countP_append, List.countP_cons, List.countP_cons,
    if_neg (by simp), if_pos (by rw [decide_eq_true_eq]; exact hlt)]
  omega

/-- The target is the type itself, or something of the chain is converted to it. -/
def Reached (c : Catalog) (d : Descriptor) (t : TypeKey) : Prop :=
  d.key = t ∨ ∃ x ∈ d.chain, ∃ k, Steps c x.key t k

/-- A type of the chain is reached, unless it is the object type. -/
theorem reached_of_mem (h : Linked c) (ht : Tidy c) (hd : Known c d) (hx : x ∈ d.chain)
    (ho : x ≠ objectType) : Reached c d x.key := by
  rcases List.mem_cons.mp hx with rfl | hx
  · exact .inl rfl
  · obtain ⟨y, hy, hp⟩ := ht.family.exists_parent_chain hd hx ho
    obtain ⟨k, hk⟩ := h.parents y x (ht.family.mem_chain hd hy) hp
    exact .inr ⟨y, hy, k, hk⟩

theorem routeBack_self (hself : c.links.get? (d.key, d.key) = some (loop d.key)) (fuel : Nat)
    (casters : List Caster) :
    c.routeBack d (fuel + 1) d.key casters = .along (d.key = .host .text) casters := by
  unfold routeBack
  rw [lastLink?, if_pos rfl, hself]
  unfold loop
  by_cases htext : d.key = .host .text
  · rw [if_pos htext, decide_eq_true htext]
    rfl
  · rw [if_neg htext, decide_eq_false htext]
    rfl

/-- **The search backwards ends at the type itself.** -/
theorem routeBack_leads (h : Linked c) (ht : Tidy c) (hd : Known c d)
    (hself : c.links.get? (d.key, d.key) = some (loop d.key)) {rank : TypeKey → Nat}
    (hrank : ∀ s t k, Steps c s t k → rank t < rank s) (fuel : Nat) :
    ∀ (t : TypeKey) (casters : List Caster), Reached c d t →
      d.chain.countP (fun y => rank t < rank y.key) < fuel →
      ∃ ks, Leads c d d.key ks t ∧
        c.routeBack d fuel t casters = .along (d.key = .host .text) (ks ++ casters) := by
  -- Induction on the fuel: each step goes to a type that comes later.
  induction fuel with
  | zero => intro t casters _ hfuel; exact absurd hfuel (Nat.not_lt_zero _)
  | succ fuel ih =>
      intro t casters hreached hfuel
      by_cases he : d.key = t
      · subst he
        exact ⟨[], rfl, routeBack_self hself fuel casters⟩
      · obtain ⟨x, hx, k, hlast, hk, rfl⟩ :=
          h.lastLink?_of_steps he (hreached.resolve_left he)
        have hother : x ≠ objectType := by
          rintro rfl
          exact h.object _ k hk
        have hcloser := countP_later_lt (x := x) hx (hrank _ _ _ hk)
        obtain ⟨ks, hleads, hroute⟩ :=
          ih x.key (k :: casters) (reached_of_mem h ht hd hx hother) (by omega)
        refine ⟨ks ++ [k], hleads.snoc hx hk, ?_⟩
        unfold routeBack
        rw [hlast]
        dsimp only
        rw [hroute, List.append_assoc]
        rfl

/-- **There is a route to every type that is reached.** -/
theorem route_leads (h : Linked c) (ht : Tidy c) (hd : Known c d)
    (hself : c.links.get? (d.key, d.key) = some (loop d.key)) {T : HostType}
    (hreached : Reached c d (.host T)) :
    ∃ ks, Leads c d d.key ks (.host T) ∧ c.route d T = .along (d.key = .host .text) ks := by
  obtain ⟨rank, hrank⟩ := h.ordered
  have hfuel := List.countP_le_length (p := fun y : Descriptor => rank (.host T) < rank y.key)
    (l := d.chain)
  obtain ⟨ks, hleads, hroute⟩ := routeBack_leads h ht hd hself hrank (d.chain.length + 2)
    (.host T) [] hreached (by omega)
  rw [List.append_nil] at hroute
  exact ⟨ks, hleads, hroute⟩

/-- There is no route to a type that is not reached. -/
theorem route_eq_none (h : Linked c) {T : HostType} (hno : ¬ Reached c d (.host T)) :
    c.route d T = .none := by
  unfold Reached at hno
  rw [not_or] at hno
  unfold route routeBack
  rw [h.lastLink?_eq_none hno.1 fun x hx k hk => hno.2 ⟨x, hx, k, hk⟩]

/-! ## §4. Views. -/

/-- A conversion makes a view of the type that it leads to. -/
@[simp]
theorem type_apply (parts : Parts) (k : Caster) (w : View) : (k.apply parts w).type = k.target := by
  cases k with
  | toBase t => exact parts.type_part t w
  | toInterface t => rfl

/-- **Conversions that lead to a type make a view of that type.** -/
theorem Leads.type_follow (parts : Parts) (ks : List Caster) : ∀ {w : View} {T : HostType},
    Leads c d (.host w.type) ks (.host T) → (parts.follow ks w).type = T := by
  induction ks with
  | nil => exact fun h => TypeKey.host.inj h
  | cons k ks ih =>
      intro w T h
      obtain ⟨-, -, h⟩ := h
      rw [← type_apply parts k w] at h
      exact ih h

theorem departure?_eq {v : Value} (hkey : d.key = .host v.type) :
    departure? d (d.key = .host .text) v = some (.plain v) := by
  unfold departure?
  cases v with
  | text s => rw [hkey]; rfl
  | _ =>
      rw [if_neg (by rw [hkey]; simp [Value.type])]
      simp only [hkey, if_pos]

/-- **A value is seen as each type that is reached from its own.** -/
theorem cast?_of_reached (h : Linked c) (ht : Tidy c) (hd : Known c d)
    (hself : c.links.get? (d.key, d.key) = some (loop d.key)) {v : Value}
    (hkey : d.key = .host v.type) {T : HostType} (hreached : Reached c d (.host T)) :
    ∃ w, c.cast? ⟨v, d⟩ T = some w ∧ w.type = T := by
  obtain ⟨ks, hleads, hroute⟩ := route_leads h ht hd hself hreached
  rw [hkey] at hleads
  refine ⟨c.parts.follow ks (.plain v), ?_, hleads.type_follow c.parts⟩
  unfold cast?
  dsimp only
  rw [hroute]
  dsimp only
  rw [departure?_eq hkey]
  rfl

/-- A value is seen as its own type without any conversion. -/
theorem cast?_self (hself : c.links.get? (d.key, d.key) = some (loop d.key)) {v : Value}
    (hkey : d.key = .host v.type) : c.cast? ⟨v, d⟩ v.type = some (.plain v) := by
  unfold cast? route
  dsimp only
  rw [← hkey, routeBack_self hself]
  dsimp only
  rw [departure?_eq hkey]
  rfl

/-- **A value is not seen as a type that is not reached from its own.** -/
theorem cast?_eq_none (h : Linked c) {v : Value} {T : HostType}
    (hno : ¬ Reached c d (.host T)) : c.cast? ⟨v, d⟩ T = none := by
  unfold cast?
  dsimp only
  rw [route_eq_none h hno]

/-! ## §5. Values with their own types. -/

/-- The descriptor is the one of the value's own type, as which the value can be seen. -/
structure Describes (c : Catalog) (d : Descriptor) (v : Value) : Prop where
  known : Known c d
  key : d.key = .host v.type
  own : c.links.get? (d.key, d.key) = some (loop d.key)

theorem Linked.own (h : Linked c) (hs : (c.links.get? (s, s)).isSome = true) :
    c.links.get? (s, s) = some (Catalog.loop s) := by
  obtain ⟨l, hl⟩ := Option.isSome_iff_exists.mp hs
  rw [hl, h.loops s l hl]

theorem Orderly.describe_own (h : Orderly c) (t : HostType) :
    Known (c.describe t).2 (c.describe t).1 ∧ (c.describe t).1.key = .host t ∧
      (c.describe t).2.links.get? (.host t, .host t) = some (loop (.host t)) := by
  have hkey := h.tidy.key_typeOf t
  refine ⟨(h.tidy.typeOf t).2.2, hkey, (h.describe t).linked.toLinked.own ?_⟩
  rw [links_describe, hkey, get?_insertNew]
  split
  · rfl
  · next hold =>
      rw [not_and] at hold
      exact Option.isSome_iff_ne_none.mpr (hold rfl)

theorem grows_describe (h : Orderly c) (t : HostType) : Grows c (c.describe t).2 :=
  (h.tidy.typeOf t).2.1

/-- **What pairing a value with its own type makes of the catalogue.** -/
theorem Orderly.runtimeType (h : Orderly c) (v : Value) :
    Orderly (c.runtimeType v).2 ∧ Grows c (c.runtimeType v).2 ∧
      Describes (c.runtimeType v).2 (c.runtimeType v).1 v := by
  have hdescribed (t : HostType) (ht : v.type = t) :
      Describes (c.describe t).2 (c.describe t).1 v := by
    obtain ⟨hknown, hkey, hown⟩ := h.describe_own t
    exact ⟨hknown, hkey.trans (by rw [ht]), by rw [hkey]; exact hown⟩
  cases v with
  | text s =>
      obtain ⟨-, hg, hknown⟩ := h.tidy.typeOf .text
      have hkey := h.tidy.key_typeOf .text
      refine ⟨h.typeOf .text, hg, hknown, hkey, ?_⟩
      show (c.typeOf .text).2.links.get? ((c.typeOf .text).1.key, (c.typeOf .text).1.key) =
        some (loop (c.typeOf .text).1.key)
      rw [hkey]
      exact (h.typeOf .text).linked.toLinked.own (h.typeOf .text).linked.text
  | _ => exact ⟨h.describe _, grows_describe h _, hdescribed _ rfl⟩

end Catalog
end ValueText
