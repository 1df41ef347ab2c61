/-
  ValueText.Proofs.Types.Ancestry — what the supertypes of a type are.

  A descriptor holds the descriptors of its base type and of its interfaces, so a
  supertype is a part of it.  The list of supertypes is found by walking up the
  base types and then following interfaces depth first; this file says what
  the walk finds, without the walk.

  A family of descriptors is closed under these parts and has one descriptor for
  each key, as the descriptors of an orderly catalogue.

  Main results, for the types of a family:

    • `mem_chain`          the types of a chain are of the family;
    • `antisymm`           two types that can be assigned to each other are one;
    • `chain_nodup`        a chain has each type once;
    • `isAssignableFrom_trans`  if only interfaces are implemented, a supertype of a
                           supertype is a supertype;
    • `instances_chain`    and the instances of generic definitions in a chain come
                           in the order of their ancestry.
-/
import Mathlib.Logic.Relation
import ValueText.Types.Descriptor

namespace ValueText.Descriptor

/-! ## §1. Parents and ancestors. -/

/-- The type is the base type of `d`, or one of the interfaces that `d` names. -/
def Parent (a d : Descriptor) : Prop := d.base = some a ∨ a ∈ d.interfaces

/-- A parent, or a parent of an ancestor. -/
abbrev Ancestor : Descriptor → Descriptor → Prop := Relation.TransGen Parent

theorem sizeOf_lt_of_parent {a d : Descriptor} (h : Parent a d) : sizeOf a < sizeOf d := by
  -- The sizes are compared on the fields, where `simp` knows the size of the whole.
  obtain ⟨facts, outer, base, interfaces, definition, arguments, element, nullable, sequence⟩ := d
  rcases h with h | h
  · simp only at h
    subst h
    simp only [mk.sizeOf_spec, Option.some.sizeOf_spec]
    omega
  · have hlt : sizeOf a < sizeOf interfaces := List.sizeOf_lt_of_mem h
    simp only [mk.sizeOf_spec]
    omega

/-- An ancestor is a part of the descriptor. -/
theorem sizeOf_lt_of_ancestor {a d : Descriptor} (h : Ancestor a d) : sizeOf a < sizeOf d := by
  induction h with
  | single h => exact sizeOf_lt_of_parent h
  | tail _ h ih => exact Nat.lt_trans ih (sizeOf_lt_of_parent h)

/-! ## §2. What the walk finds is an ancestor. -/

theorem mem_basesUpTo (self : TypeKey) : ∀ (d : Descriptor) {x : Descriptor},
    x ∈ basesUpTo self d → Ancestor x d ∧ x.isObject = false
  | ⟨_, _, none, _, _, _, _, _, _⟩, x, h => by simp [basesUpTo] at h
  | ⟨facts, outer, some base, interfaces, definition, arguments, element, nullable, sequence⟩,
      x, h => by
      have hparent : Parent base
          ⟨facts, outer, some base, interfaces, definition, arguments, element, nullable,
            sequence⟩ := .inl rfl
      unfold basesUpTo at h
      split at h
      · cases h
      · next hstop =>
          simp only [Bool.or_eq_true, decide_eq_true_eq, not_or] at hstop
          rcases List.mem_cons.mp h with rfl | h
          · exact ⟨.single hparent, Bool.eq_false_iff.mpr hstop.1⟩
          · obtain ⟨ha, ho⟩ := mem_basesUpTo self base h
            exact ⟨ha.tail hparent, ho⟩

mutual

theorem mem_reach (found : List Descriptor) : ∀ (d : Descriptor) {x : Descriptor},
    x ∈ reach found d → x ∈ found ∨ x = d ∨ Ancestor x d
  | ⟨facts, outer, base, interfaces, definition, arguments, element, nullable, sequence⟩, x, h => by
      unfold reach at h
      split at h
      · exact .inl h
      · -- The walk adds `d` and goes on with its interfaces.
        rcases mem_reachAll _ interfaces h with hfound | ⟨i, hi, hx⟩
        · rcases List.mem_append.mp hfound with hfound | hself
          · exact .inl hfound
          · exact .inr (.inl (List.mem_singleton.mp hself))
        · have hparent : Parent i
              ⟨facts, outer, base, interfaces, definition, arguments, element, nullable,
                sequence⟩ := .inr hi
          rcases hx with rfl | hx
          · exact .inr (.inr (.single hparent))
          · exact .inr (.inr (hx.tail hparent))

theorem mem_reachAll (found : List Descriptor) : ∀ (ds : List Descriptor) {x : Descriptor},
    x ∈ reachAll found ds → x ∈ found ∨ ∃ i ∈ ds, x = i ∨ Ancestor x i
  | [], x, h => .inl h
  | i :: is, x, h => by
      unfold reachAll at h
      rcases mem_reachAll (reach found i) is h with hfound | ⟨j, hj, hx⟩
      · rcases mem_reach found i hfound with hfound | hx
        · exact .inl hfound
        · exact .inr ⟨i, List.mem_cons_self, hx⟩
      · exact .inr ⟨j, List.mem_cons_of_mem _ hj, hx⟩

end

theorem mem_foldl_reachAll (bs : List Descriptor) : ∀ {found : List Descriptor} {x : Descriptor},
    x ∈ bs.foldl (fun found b => reachAll found b.interfaces) found →
      x ∈ found ∨ ∃ b ∈ bs, Ancestor x b := by
  induction bs with
  | nil => intro found x h; exact .inl h
  | cons b bs ih =>
      intro found x h
      rcases ih h with hfound | ⟨b', hb', hx⟩
      · rcases mem_reachAll found b.interfaces hfound with hfound | ⟨i, hi, hx⟩
        · exact .inl hfound
        · have hparent : Parent i b := .inr hi
          refine .inr ⟨b, List.mem_cons_self, ?_⟩
          rcases hx with rfl | hx
          · exact .single hparent
          · exact hx.tail hparent
      · exact .inr ⟨b', List.mem_cons_of_mem _ hb', hx⟩

theorem ancestors_eq_foldl (d : Descriptor) :
    d.ancestors = (d :: d.bases).foldl (fun found b => reachAll found b.interfaces) d.bases := rfl

/-- **What the walk finds is an ancestor.** -/
theorem ancestor_of_mem {d x : Descriptor} (h : x ∈ d.ancestors) : Ancestor x d := by
  rw [ancestors_eq_foldl] at h
  rcases mem_foldl_reachAll _ h with hbase | ⟨b, hb, hx⟩
  · exact (mem_basesUpTo _ d hbase).1
  · rcases List.mem_cons.mp hb with rfl | hb
    · exact hx
    · exact hx.trans (mem_basesUpTo _ d hb).1

theorem mem_supertypes {d x : Descriptor} (h : x ∈ d.supertypes) :
    Ancestor x d ∨ d.isObject = false ∧ x = objectType := by
  unfold supertypes at h
  split at h
  · exact .inl (ancestor_of_mem h)
  · next ho =>
      rcases List.mem_append.mp h with h | h
      · exact .inl (ancestor_of_mem (List.mem_filter.mp h).1)
      · exact .inr ⟨Bool.eq_false_iff.mpr ho, List.mem_singleton.mp h⟩

/-! ## §3. Families. -/

/-- A family of descriptors that has, with each of them, those of its parents, one
for each key, and no object type but the one that everything can be assigned to. -/
structure Family (K : Descriptor → Prop) : Prop where
  unique : ∀ a d, K a → K d → a.key = d.key → a = d
  parent : ∀ a d, K d → Parent a d → K a
  object : K objectType
  isObject : ∀ d, K d → d.isObject = true → d = objectType

namespace Family

variable {K : Descriptor → Prop} {a d : Descriptor}

theorem ancestor (hK : Family K) (h : Ancestor a d) (hd : K d) : K a := by
  induction h with
  | single h => exact hK.parent _ _ hd h
  | tail _ h ih => exact ih (hK.parent _ _ hd h)

theorem key_ne_of_ancestor (hK : Family K) (hd : K d) (h : Ancestor a d) : a.key ≠ d.key := by
  intro he
  -- An ancestor of the same key would be the type itself, and a part of it.
  have := sizeOf_lt_of_ancestor h
  rw [hK.unique a d (hK.ancestor h hd) hd he] at this
  exact Nat.lt_irrefl _ this

theorem mem_chain (hK : Family K) (hd : K d) (h : a ∈ d.chain) : K a := by
  rcases List.mem_cons.mp h with rfl | h
  · exact hd
  · rcases mem_supertypes h with h | ⟨-, rfl⟩
    · exact hK.ancestor h hd
    · exact hK.object

/-- What a type can be assigned to is in its chain. -/
theorem mem_chain_of_isAssignableFrom (hK : Family K) (ha : K a) (hd : K d)
    (h : a.isAssignableFrom d = true) : a ∈ d.chain := by
  unfold isAssignableFrom at h
  simp only [Bool.or_eq_true, decide_eq_true_eq, List.any_eq_true] at h
  rcases h with h | ⟨x, hx, hkey⟩
  · rw [hK.unique a d ha hd h]
    exact List.mem_cons_self
  · have hxd := List.mem_cons_of_mem d hx
    rw [← hK.unique x a (hK.mem_chain hd hxd) ha hkey]
    exact hxd

/-- Assignability in a family: the type itself, the object type, or an ancestor. -/
theorem isAssignableFrom_cases (hK : Family K) (ha : K a) (hd : K d)
    (h : a.isAssignableFrom d = true) : a = d ∨ a = objectType ∨ Ancestor a d := by
  rcases List.mem_cons.mp (hK.mem_chain_of_isAssignableFrom ha hd h) with he | hx
  · exact .inl he
  · rcases mem_supertypes hx with h | ⟨-, ho⟩
    · exact .inr (.inr h)
    · exact .inr (.inl ho)

theorem not_ancestor_objectType (h : Ancestor a objectType) : False := by
  have hp : ∀ x, ¬ Parent x objectType := by
    rintro x (h | h)
    · cases h
    · cases h
  rcases Relation.TransGen.tail'_iff.mp h with ⟨x, -, hx⟩
  exact hp x hx

/-- **Two types that can be assigned to each other are one.** -/
theorem antisymm (hK : Family K) (ha : K a) (hd : K d) (h : a.isAssignableFrom d = true)
    (h' : d.isAssignableFrom a = true) : a = d := by
  rcases hK.isAssignableFrom_cases ha hd h with rfl | rfl | had
  · rfl
  · rcases hK.isAssignableFrom_cases hd ha h' with rfl | rfl | hda
    · rfl
    · rfl
    · exact absurd hda not_ancestor_objectType
  · rcases hK.isAssignableFrom_cases hd ha h' with rfl | rfl | hda
    · rfl
    · exact absurd had not_ancestor_objectType
    · exact absurd (sizeOf_lt_of_ancestor hda) (Nat.lt_asymm (sizeOf_lt_of_ancestor had))

end Family

/-! ## §4. Each type once. -/

/-- No two descriptors of one key. -/
def Distinct (ds : List Descriptor) : Prop := ds.Pairwise fun a d => a.key ≠ d.key

theorem distinct_snoc {ds : List Descriptor} {d : Descriptor} (h : Distinct ds)
    (hd : ∀ a ∈ ds, a.key ≠ d.key) : Distinct (ds ++ [d]) := by
  refine List.pairwise_append.mpr ⟨h, List.pairwise_singleton _ _, ?_⟩
  intro a ha x hx
  rw [List.mem_singleton.mp hx]
  exact hd a ha

mutual

theorem distinct_reach (found : List Descriptor) : ∀ (d : Descriptor),
    Distinct found → Distinct (reach found d)
  | ⟨facts, outer, base, interfaces, definition, arguments, element, nullable, sequence⟩, h => by
      unfold reach
      split
      · exact h
      · next hnew =>
          -- A type is found only where none of its key was found before.
          apply distinct_reachAll _ interfaces
          apply distinct_snoc h
          intro a ha hkey
          exact hnew (List.any_eq_true.mpr ⟨a, ha, decide_eq_true hkey⟩)

theorem distinct_reachAll (found : List Descriptor) : ∀ (ds : List Descriptor),
    Distinct found → Distinct (reachAll found ds)
  | [], h => h
  | i :: is, h => by
      unfold reachAll
      exact distinct_reachAll (reach found i) is (distinct_reach found i h)

end

theorem distinct_foldl_reachAll (bs : List Descriptor) : ∀ {found : List Descriptor},
    Distinct found → Distinct (bs.foldl (fun found b => reachAll found b.interfaces) found) := by
  induction bs with
  | nil => intro found h; exact h
  | cons b bs ih => intro found h; exact ih (distinct_reachAll found b.interfaces h)

/-- A type and its base types come in the order of their ancestry. -/
theorem pairwise_basesUpTo (self : TypeKey) : ∀ (d : Descriptor),
    (d :: basesUpTo self d).Pairwise fun x y => Ancestor y x
  | ⟨_, _, none, _, _, _, _, _, _⟩ => by
      simp only [basesUpTo]
      exact List.pairwise_singleton _ _
  | ⟨facts, outer, some base, interfaces, definition, arguments, element, nullable, sequence⟩ => by
      refine List.pairwise_cons.mpr ⟨fun y hy => (mem_basesUpTo self _ hy).1, ?_⟩
      unfold basesUpTo
      split
      · exact List.Pairwise.nil
      · exact pairwise_basesUpTo self base

namespace Family

variable {K : Descriptor → Prop} {a d : Descriptor}

theorem distinct_bases (hK : Family K) (hd : K d) : Distinct d.bases := by
  have hpair : d.bases.Pairwise fun x y => Ancestor y x :=
    (List.pairwise_cons.mp (pairwise_basesUpTo d.key d)).2
  apply hpair.imp_of_mem
  intro x y hx _ hxy
  exact (hK.key_ne_of_ancestor (hK.ancestor (mem_basesUpTo _ d hx).1 hd) hxy).symm

theorem distinct_ancestors (hK : Family K) (hd : K d) : Distinct d.ancestors := by
  rw [ancestors_eq_foldl]
  exact distinct_foldl_reachAll _ (hK.distinct_bases hd)

theorem distinct_supertypes (hK : Family K) (hd : K d) : Distinct d.supertypes := by
  unfold supertypes
  split
  · exact hK.distinct_ancestors hd
  · -- The object type is put at the end, and was filtered out before.
    apply distinct_snoc ((hK.distinct_ancestors hd).filter _)
    intro x hx hkey
    obtain ⟨hx, hno⟩ := List.mem_filter.mp hx
    rw [hK.unique x _ (hK.ancestor (ancestor_of_mem hx) hd) hK.object hkey] at hno
    exact absurd hno (by decide)

/-- **A chain has each type once.** -/
theorem distinct_chain (hK : Family K) (hd : K d) : Distinct d.chain := by
  refine List.pairwise_cons.mpr ⟨?_, hK.distinct_supertypes hd⟩
  intro x hx hkey
  rcases mem_supertypes hx with hx | ⟨ho, rfl⟩
  · exact hK.key_ne_of_ancestor hd hx hkey.symm
  · rw [hK.unique d _ hd hK.object hkey] at ho
    exact absurd ho (by decide)

end Family

/-! ## §5. What the walk does not miss. -/

mutual

theorem prefix_reach (found : List Descriptor) : ∀ (d : Descriptor), found <+: reach found d
  | ⟨facts, outer, base, interfaces, definition, arguments, element, nullable, sequence⟩ => by
      unfold reach
      split
      · exact List.prefix_refl _
      · exact (List.prefix_append _ _).trans (prefix_reachAll _ interfaces)

theorem prefix_reachAll (found : List Descriptor) : ∀ (ds : List Descriptor),
    found <+: reachAll found ds
  | [] => List.prefix_refl _
  | i :: is => by
      unfold reachAll
      exact (prefix_reach found i).trans (prefix_reachAll (reach found i) is)

end

theorem prefix_foldl_reachAll (bs : List Descriptor) : ∀ found : List Descriptor,
    found <+: bs.foldl (fun found b => reachAll found b.interfaces) found := by
  induction bs with
  | nil => intro found; exact List.prefix_refl _
  | cons b bs ih => intro found; exact (prefix_reachAll found b.interfaces).trans (ih _)

namespace Family

variable {K : Descriptor → Prop}

theorem known_reach (hK : Family K) {found : List Descriptor} {d : Descriptor}
    (hf : ∀ x ∈ found, K x) (hd : K d) : ∀ x ∈ reach found d, K x := by
  intro x hx
  rcases mem_reach found d hx with hx | rfl | hx
  · exact hf x hx
  · exact hd
  · exact hK.ancestor hx hd

theorem known_reachAll (hK : Family K) {found ds : List Descriptor} (hf : ∀ x ∈ found, K x)
    (hds : ∀ i ∈ ds, K i) : ∀ x ∈ reachAll found ds, K x := by
  intro x hx
  rcases mem_reachAll found ds hx with hx | ⟨i, hi, rfl | hx⟩
  · exact hf x hx
  · exact hds _ hi
  · exact hK.ancestor hx (hds i hi)

theorem self_mem_reach (hK : Family K) {found : List Descriptor} (hf : ∀ x ∈ found, K x) :
    ∀ {d : Descriptor}, K d → d ∈ reach found d
  | ⟨facts, outer, base, interfaces, definition, arguments, element, nullable, sequence⟩, hd => by
      unfold reach
      split
      · next hold =>
          -- A type of this key that was found before is the type itself.
          obtain ⟨x, hx, hkey⟩ := List.any_eq_true.mp hold
          have he := hK.unique x _ (hf x hx) hd (of_decide_eq_true hkey)
          exact he ▸ hx
      · exact (prefix_reachAll _ interfaces).subset
          (List.mem_append_right _ (List.mem_singleton.mpr rfl))

theorem mem_reachAll_of_mem (hK : Family K) (ds : List Descriptor) :
    ∀ {found : List Descriptor}, (∀ x ∈ found, K x) → (∀ i ∈ ds, K i) →
      ∀ i ∈ ds, i ∈ reachAll found ds := by
  induction ds with
  | nil => intro found _ _ i hi; cases hi
  | cons j js ih =>
      intro found hf hds i hi
      have hj := hds j List.mem_cons_self
      unfold reachAll
      rcases List.mem_cons.mp hi with rfl | hi
      · exact (prefix_reachAll _ js).subset (hK.self_mem_reach hf hj)
      · exact ih (hK.known_reach hf hj) (fun k hk => hds k (List.mem_cons_of_mem _ hk)) i hi

theorem known_interfaces (hK : Family K) {d : Descriptor} (hd : K d) : ∀ i ∈ d.interfaces, K i :=
  fun i hi => hK.parent i d hd (.inr hi)

mutual

/-- Whatever is new in the walk, its interfaces are followed. -/
theorem closed_reach (hK : Family K) : ∀ (found : List Descriptor) (d : Descriptor) {x : Descriptor},
    (∀ x ∈ found, K x) → K d → x ∈ reach found d →
      x ∈ found ∨ ∀ i ∈ x.interfaces, i ∈ reach found d
  | found, ⟨facts, outer, base, interfaces, definition, arguments, element, nullable, sequence⟩,
      x, hf, hd, hx => by
      have hi := hK.known_interfaces hd
      unfold reach at hx ⊢
      split at hx
      · exact .inl hx
      · next hnew =>
          rw [if_neg hnew]
          have hf' : ∀ y ∈ found ++ [⟨facts, outer, base, interfaces, definition, arguments,
              element, nullable, sequence⟩], K y := by
            intro y hy
            rcases List.mem_append.mp hy with hy | hy
            · exact hf y hy
            · rw [List.mem_singleton.mp hy]
              exact hd
          rcases closed_reachAll hK _ interfaces hf' hi hx with hx | hx
          · rcases List.mem_append.mp hx with hx | hx
            · exact .inl hx
            · -- The type itself is new, and its interfaces are what the walk follows next.
              rw [List.mem_singleton.mp hx]
              exact .inr (hK.mem_reachAll_of_mem interfaces hf' hi)
          · exact .inr hx

theorem closed_reachAll (hK : Family K) : ∀ (found ds : List Descriptor) {x : Descriptor},
    (∀ x ∈ found, K x) → (∀ i ∈ ds, K i) → x ∈ reachAll found ds →
      x ∈ found ∨ ∀ i ∈ x.interfaces, i ∈ reachAll found ds
  | found, [], x, _, _, hx => .inl hx
  | found, j :: js, x, hf, hds, hx => by
      have hj := hds j List.mem_cons_self
      have hjs := fun k hk => hds k (List.mem_cons_of_mem j hk)
      unfold reachAll at hx ⊢
      rcases closed_reachAll hK _ js (hK.known_reach hf hj) hjs hx with hx | hx
      · rcases closed_reach hK found j hf hj hx with hx | hx
        · exact .inl hx
        · exact .inr fun i hi => (prefix_reachAll _ js).subset (hx i hi)
      · exact .inr hx

end

theorem closed_foldl_reachAll (hK : Family K) (bs : List Descriptor) :
    ∀ {found : List Descriptor}, (∀ x ∈ found, K x) → (∀ b ∈ bs, K b) →
      (∀ x ∈ bs.foldl (fun found b => reachAll found b.interfaces) found,
        x ∈ found ∨ ∀ i ∈ x.interfaces,
          i ∈ bs.foldl (fun found b => reachAll found b.interfaces) found) ∧
      ∀ b ∈ bs, ∀ i ∈ b.interfaces,
        i ∈ bs.foldl (fun found b => reachAll found b.interfaces) found := by
  induction bs with
  | nil => intro found _ _; exact ⟨fun x hx => .inl hx, fun b hb => by cases hb⟩
  | cons b bs ih =>
      intro found hf hbs
      have hb := hbs b List.mem_cons_self
      have hi := hK.known_interfaces hb
      have hf' := hK.known_reachAll hf hi
      obtain ⟨hclosed, hfollowed⟩ := ih hf' fun c hc => hbs c (List.mem_cons_of_mem _ hc)
      have hsub := (prefix_foldl_reachAll bs (reachAll found b.interfaces)).subset
      refine ⟨fun x hx => ?_, fun c hc i hic => ?_⟩
      · rcases hclosed x hx with hx | hx
        · rcases hK.closed_reachAll found b.interfaces hf hi hx with hx | hx
          · exact .inl hx
          · exact .inr fun i hi => hsub (hx i hi)
        · exact .inr hx
      · rcases List.mem_cons.mp hc with rfl | hc
        · exact hsub (hK.mem_reachAll_of_mem _ hf hi i hic)
        · exact hfollowed c hc i hic

end Family

/-! ## §6. Families in which only interfaces are implemented. -/

/-- An interface, or the object type. -/
def Implementable (d : Descriptor) : Prop := d.isInterface = true ∨ d.isObject = true

/-- Only interfaces and the object type are implemented, and an interface has no base type and
is no instance of a generic definition. -/
structure Plain (K : Descriptor → Prop) : Prop where
  implemented : ∀ i d, K d → i ∈ d.interfaces → i.Implementable
  interface : ∀ d, K d → d.isInterface = true → d.base = none ∧ d.definition = none

/-- Base types are followed up to the object type. -/
theorem base_mem_basesUpTo (self : TypeKey) : ∀ (d : Descriptor),
    (∀ x, Ancestor x d → x.key ≠ self) → ∀ y ∈ d :: basesUpTo self d, ∀ b, y.base = some b →
      b.isObject = true ∨ b ∈ basesUpTo self d
  | ⟨facts, outer, none, interfaces, definition, arguments, element, nullable, sequence⟩, _, y,
      hy, b, hb => by
      simp only [basesUpTo, List.mem_singleton] at hy
      subst hy
      cases hb
  | ⟨facts, outer, some base, interfaces, definition, arguments, element, nullable, sequence⟩, hself,
      y, hy, b, hb => by
      have hparent : Parent base
          ⟨facts, outer, some base, interfaces, definition, arguments, element, nullable,
            sequence⟩ := .inl rfl
      have hkey := hself base (.single hparent)
      unfold basesUpTo at hy ⊢
      by_cases ho : base.isObject = true
      · -- The walk stops here, with the object type as the base.
        rw [if_pos (by simp [ho])] at hy ⊢
        rw [List.mem_singleton.mp hy] at hb
        cases hb
        exact .inl ho
      · rw [if_neg (by simp [ho, hkey])] at hy ⊢
        rcases List.mem_cons.mp hy with rfl | hy
        · cases hb
          exact .inr List.mem_cons_self
        · rcases base_mem_basesUpTo self base (fun x hx => hself x (hx.tail hparent)) y hy b hb
            with hb | hb
          · exact .inl hb
          · exact .inr (List.mem_cons_of_mem _ hb)

namespace Family

variable {K : Descriptor → Prop} {a d e x : Descriptor}

/-- What can be implemented has no base type and is no instance. -/
theorem rootless (hK : Family K) (hP : Plain K) (hd : K d) (h : d.Implementable) :
    d.base = none ∧ d.definition = none := by
  rcases h with hi | ho
  · exact hP.interface d hd hi
  · rw [hK.isObject d hd ho]
    exact ⟨rfl, rfl⟩

theorem implementable_of_parent (hK : Family K) (hP : Plain K) (ha : K a) (h : Parent x a)
    (hi : a.Implementable) : x.Implementable := by
  rcases h with h | h
  · rw [(hK.rootless hP ha hi).1] at h
    cases h
  · exact hP.implemented _ _ ha h

theorem implementable_of_ancestor (hK : Family K) (hP : Plain K) (h : Ancestor x a) (ha : K a)
    (hi : a.Implementable) : x.Implementable := by
  induction h using Relation.TransGen.head_induction_on with
  | single h => exact hK.implementable_of_parent hP ha h hi
  | head h hc ih => exact hK.implementable_of_parent hP (hK.ancestor hc ha) h ih

theorem known_bases (hK : Family K) (hd : K d) : ∀ b ∈ d :: d.bases, K b := by
  intro b hb
  rcases List.mem_cons.mp hb with rfl | hb
  · exact hd
  · exact hK.ancestor (mem_basesUpTo _ d hb).1 hd

/-- The walk finds base types first and after them only what can be implemented. -/
theorem mem_bases_or_implementable (hK : Family K) (hP : Plain K) (hd : K d)
    (h : x ∈ d.ancestors) : x ∈ d.bases ∨ x.Implementable := by
  rw [ancestors_eq_foldl] at h
  -- Every step follows interfaces, so what it finds is one.
  have hstep : ∀ (bs found : List Descriptor), (∀ b ∈ bs, K b) →
      x ∈ bs.foldl (fun found b => reachAll found b.interfaces) found →
      x ∈ found ∨ x.Implementable := by
    intro bs
    induction bs with
    | nil => intro found _ hx; exact .inl hx
    | cons b bs ih =>
        intro found hbs hx
        have hb := hbs b List.mem_cons_self
        rcases ih _ (fun c hc => hbs c (List.mem_cons_of_mem _ hc)) hx with hx | hx
        · rcases mem_reachAll found b.interfaces hx with hx | ⟨i, hi, hx⟩
          · exact .inl hx
          · have hint := hP.implemented i b hb hi
            rcases hx with rfl | hx
            · exact .inr hint
            · exact .inr (hK.implementable_of_ancestor hP hx (hK.known_interfaces hb i hi) hint)
        · exact .inr hx
  exact hstep _ _ (hK.known_bases hd) h

/-- **The walk misses no ancestor** but the object type. -/
theorem mem_ancestors (hK : Family K) (hP : Plain K) (hd : K d) (h : Ancestor x d) :
    x.isObject = true ∨ x ∈ d.ancestors := by
  have hbase := base_mem_basesUpTo d.key d fun y hy => hK.key_ne_of_ancestor hd hy
  obtain ⟨hclosed, hfollowed⟩ :=
    hK.closed_foldl_reachAll (d :: d.bases) (fun b hb => hK.known_bases hd b (List.mem_cons_of_mem _ hb))
      (hK.known_bases hd)
  have hsub : ∀ b ∈ d.bases, b ∈ d.ancestors := (prefix_foldl_reachAll (d :: d.bases) d.bases).subset
  -- Induction from `d` upwards: a parent of what was found is found.
  induction h using Relation.TransGen.head_induction_on with
  | single h =>
      rcases h with h | h
      · rcases hbase d List.mem_cons_self _ h with ho | hb
        · exact .inl ho
        · exact .inr (hsub _ hb)
      · exact .inr (hfollowed d List.mem_cons_self _ h)
  | head h hc ih =>
      rcases ih with ho | hc'
      · rw [hK.isObject _ (hK.ancestor hc hd) ho] at h
        exact absurd (.single h) not_ancestor_objectType
      · rcases h with h | h
        · -- Only a base type has a base type itself.
          rcases hK.mem_bases_or_implementable hP hd hc' with hb | hi
          · rcases hbase _ (List.mem_cons_of_mem _ hb) _ h with ho | hb
            · exact .inl ho
            · exact .inr (hsub _ hb)
          · rw [(hK.rootless hP (hK.ancestor hc hd) hi).1] at h
            cases h
        · rcases hclosed _ hc' with hb | hi
          · exact .inr (hfollowed _ (List.mem_cons_of_mem _ hb) _ h)
          · exact .inr (hi _ h)

/-- Assignability in a plain family. -/
theorem isAssignableFrom_iff (hK : Family K) (hP : Plain K) (ha : K a) (hd : K d) :
    a.isAssignableFrom d = true ↔ a = d ∨ a = objectType ∨ Ancestor a d := by
  refine ⟨hK.isAssignableFrom_cases ha hd, fun h => ?_⟩
  unfold isAssignableFrom
  rw [Bool.or_eq_true, List.any_eq_true]
  by_cases ho : d.isObject = true
  · have hd' := hK.isObject d hd ho
    rcases h with rfl | rfl | h
    · exact .inl (decide_eq_true rfl)
    · exact .inl (decide_eq_true (by rw [hd']))
    · rw [hd'] at h
      exact absurd h not_ancestor_objectType
  · have hobject : objectType ∈ d.supertypes := by
      rw [supertypes, if_neg ho]
      exact List.mem_append_right _ (List.mem_singleton.mpr rfl)
    rcases h with rfl | rfl | h
    · exact .inl (decide_eq_true rfl)
    · exact .inr ⟨_, hobject, decide_eq_true rfl⟩
    · rcases hK.mem_ancestors hP hd h with hao | ham
      · rw [hK.isObject a ha hao]
        exact .inr ⟨_, hobject, decide_eq_true rfl⟩
      · by_cases hao : a.isObject = true
        · rw [hK.isObject a ha hao]
          exact .inr ⟨_, hobject, decide_eq_true rfl⟩
        · refine .inr ⟨a, ?_, decide_eq_true rfl⟩
          rw [supertypes, if_neg ho]
          exact List.mem_append_left _ (List.mem_filter.mpr ⟨ham, by simp [hao]⟩)

/-- **A supertype of a supertype is a supertype.** -/
theorem isAssignableFrom_trans (hK : Family K) (hP : Plain K) (ha : K a) (hd : K d) (he : K e)
    (h₁ : a.isAssignableFrom d = true) (h₂ : d.isAssignableFrom e = true) :
    a.isAssignableFrom e = true := by
  rw [hK.isAssignableFrom_iff hP ha hd] at h₁
  rw [hK.isAssignableFrom_iff hP hd he] at h₂
  rw [hK.isAssignableFrom_iff hP ha he]
  rcases h₁ with rfl | rfl | h₁
  · exact h₂
  · exact .inr (.inl rfl)
  · rcases h₂ with rfl | rfl | h₂
    · exact .inr (.inr h₁)
    · exact absurd h₁ not_ancestor_objectType
    · exact .inr (.inr (h₁.trans h₂))

/-- **The instances of generic definitions in a chain come in the order of their
ancestry**: they are the type and its base types. -/
theorem instances_chain (hK : Family K) (hP : Plain K) (hd : K d) :
    (d.chain.filter (·.definition.isSome)).Pairwise fun x y => Ancestor y x := by
  -- What the walk adds to the base types can be implemented, and is no instance.
  have hancestors : d.ancestors.filter (·.definition.isSome) = d.bases.filter (·.definition.isSome) := by
    obtain ⟨rest, hrest⟩ := prefix_foldl_reachAll (d :: d.bases) d.bases
    rw [ancestors_eq_foldl, ← hrest, List.filter_append]
    suffices h : rest.filter (·.definition.isSome) = [] by rw [h, List.append_nil]
    rw [List.filter_eq_nil_iff]
    intro x hx hsome
    have hmem : x ∈ d.ancestors := by
      rw [ancestors_eq_foldl, ← hrest]
      exact List.mem_append_right _ hx
    rcases hK.mem_bases_or_implementable hP hd hmem with hb | hi
    · have hdistinct := hK.distinct_ancestors hd
      rw [ancestors_eq_foldl, ← hrest] at hdistinct
      exact (List.pairwise_append.mp hdistinct).2.2 x hb x hx rfl
    · rw [(hK.rootless hP (hK.ancestor (ancestor_of_mem hmem) hd) hi).2] at hsome
      cases hsome
  -- The chain is the type, the walk and the object type, of which some may be left out.
  have hchain : d.chain.Sublist (d :: (d.ancestors ++ [objectType])) := by
    apply List.Sublist.cons_cons d
    unfold supertypes
    split
    · exact List.sublist_append_left _ _
    · exact List.Sublist.append List.filter_sublist (List.Sublist.refl _)
  have hsub : (d.chain.filter (·.definition.isSome)).Sublist (d :: d.bases) := by
    refine (hchain.filter _).trans ?_
    have hcons : (d :: (d.ancestors ++ [objectType])).filter (·.definition.isSome) =
        (d :: d.bases).filter (·.definition.isSome) := by
      have hobject : ([objectType] : List Descriptor).filter (·.definition.isSome) = [] := rfl
      rw [List.filter_cons, List.filter_cons, List.filter_append, hancestors, hobject,
        List.append_nil]
    rw [hcons]
    exact List.filter_sublist
  exact (pairwise_basesUpTo d.key d).sublist hsub

end Family

end ValueText.Descriptor
