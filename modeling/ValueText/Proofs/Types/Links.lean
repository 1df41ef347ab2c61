/-
  ValueText.Proofs.Types.Links — the conversions that an orderly catalogue has.

  Declarations publish a type together with its links, so in an orderly catalogue
  each parent of a type has a link that leads to it.  A link leads from a type to one
  that was known before, so links do not lead in a circle.  Other than to its
  parents there are only the links by which a type is seen as itself.

  Main results:

    • `Linked`          what the links of a catalogue are;
    • `Orderly.linked`  the links of an orderly catalogue are like that.
-/
import Mathlib.Data.List.Induction
import ValueText.Proofs.Types.Orderly

namespace ValueText

open Descriptor (Parent objectType)

/-- The type that a conversion leads to. -/
def Caster.target : Caster → HostType
  | .toBase t => t
  | .toInterface t => t

namespace Catalog

variable {c c' : Catalog} {d : Descriptor} {s t : TypeKey}

/-! ## §1. Links. -/

/-- The link by which values of a type are seen as themselves. -/
def loop (k : TypeKey) : Link := if k = .host .text then .textIdentity else .identity

/-- A conversion that is declared from one type to another. -/
def Steps (c : Catalog) (s t : TypeKey) (k : Caster) : Prop :=
  c.links.get? (s, t) = some (.upcast k)

/-- What the links of a catalogue are. -/
structure Linked (c : Catalog) : Prop where
  /-- There is a conversion to every parent. -/
  parents : ∀ d p, Known c d → Parent p d → ∃ k, Steps c d.key p.key k
  /-- A link leads from a type to itself, or is a conversion to another type. -/
  loops : ∀ k l, c.links.get? (k, k) = some l → l = loop k
  steps : ∀ s t l, c.links.get? (s, t) = some l → s ≠ t → ∃ k, l = .upcast k ∧ t = .host k.target
  known : ∀ s t l, c.links.get? (s, t) = some l →
    (c.get? s).isSome = true ∧ (c.get? t).isSome = true
  /-- The object type is not declared. -/
  object : ∀ t k, ¬ Steps c objectType.key t k
  /-- Conversions lead from later types to earlier ones. -/
  ordered : ∃ rank : TypeKey → Nat, ∀ s t k, Steps c s t k → rank t < rank s

theorem get?_insertLink (c : Catalog) (l : Link) (s t s' t' : TypeKey) :
    (c.insertLink s t l).links.get? (s', t') =
      if (s, t) = (s', t') then some l else c.links.get? (s', t') :=
  Table.get?_set c.links (s, t) (s', t') l

theorem isSome_insert (h : (c.get? t).isSome = true) : ((c.insert d).get? t).isSome = true := by
  rw [get?_insert]
  split
  · rfl
  · exact h

theorem not_parent_of_parentless (hb : d.base = none) (hi : d.interfaces = []) :
    ∀ p, ¬ Parent p d := by
  rintro p (hp | hp)
  · rw [hb] at hp
    cases hp
  · rw [hi] at hp
    cases hp

/-- A type without parents that becomes known needs no conversions. -/
theorem Linked.insert (h : Linked c) (hparents : ∀ p, ¬ Parent p d) : Linked (c.insert d) := by
  refine ⟨?_, h.loops, h.steps, ?_, h.object, h.ordered⟩
  · intro x p hx hp
    rw [Known, get?_insert] at hx
    split at hx
    · cases hx
      exact absurd hp (hparents p)
    · exact h.parents x p hx hp
  · intro s t l hl
    obtain ⟨hs, ht⟩ := h.known s t l hl
    exact ⟨isSome_insert hs, isSome_insert ht⟩

theorem Linked.typeOf (h : Linked c) (t : HostType) : Linked (c.typeOf t).2 := by
  unfold Catalog.typeOf
  split
  · exact h
  · exact h.insert (not_parent_of_parentless rfl rfl)

theorem Linked.named (h : Linked c) {key : String} {make : TypeKey → Descriptor}
    (hparents : ∀ p, ¬ Parent p (make (.named key))) : Linked (c.named key make).2 := by
  unfold Catalog.named
  split
  · exact h
  · exact h.insert hparents

/-- A known type can be seen as itself. -/
theorem Linked.loop (h : Linked c) {k : TypeKey} (hk : (c.get? k).isSome = true) :
    Linked (c.insertLink k k (loop k)) := by
  have hsteps {s t : TypeKey} {j : Caster} (hs : Steps (c.insertLink k k (Catalog.loop k)) s t j) :
      Steps c s t j := by
    rw [Steps, get?_insertLink] at hs
    split at hs
    · unfold Catalog.loop at hs
      split at hs <;> cases hs
    · exact hs
  obtain ⟨rank, hrank⟩ := h.ordered
  refine ⟨?_, ?_, ?_, ?_, fun t j hs => h.object t j (hsteps hs),
    rank, fun s t j hs => hrank s t j (hsteps hs)⟩
  · intro x p hx hp
    obtain ⟨j, hj⟩ := h.parents x p hx hp
    refine ⟨j, ?_⟩
    rw [Steps, get?_insertLink, if_neg ?_]
    · exact hj
    · intro he
      obtain ⟨hs, ht⟩ := Prod.mk.inj he
      -- A conversion never leads from a type to itself.
      rw [Steps, ← hs, ← ht] at hj
      have hloop := h.loops k _ hj
      unfold Catalog.loop at hloop
      split at hloop <;> cases hloop
  · intro k' l hl
    rw [get?_insertLink] at hl
    split at hl
    · next he =>
        cases hl
        rw [(Prod.mk.inj he).1]
    · exact h.loops k' l hl
  · intro s t l hl hne
    rw [get?_insertLink] at hl
    split at hl
    · next he =>
        obtain ⟨rfl, rfl⟩ := Prod.mk.inj he
        exact absurd rfl hne
    · exact h.steps s t l hl hne
  · intro s t l hl
    rw [get?_insertLink] at hl
    split at hl
    · next he =>
        obtain ⟨rfl, rfl⟩ := Prod.mk.inj he
        exact ⟨hk, hk⟩
    · exact h.known s t l hl

/-! ## §2. Declarations. -/

/-- The links of a draft are conversions to known types, and its parents are among these. -/
structure Prepared (c : Catalog) (d : Draft) : Prop where
  parents : ∀ p, Parent p d.descriptor → ∃ l ∈ d.links, l.1 = p.key
  targets : ∀ l ∈ d.links, ∃ k, l = (.host k.target, .upcast k) ∧
    (c.get? (.host k.target)).isSome = true

theorem isSome_of_grows (ht : Tidy c) (h : Grows c c') (hs : (c.get? s).isSome = true) :
    (c'.get? s).isSome = true := by
  obtain ⟨d, hd⟩ := Option.isSome_iff_exists.mp hs
  have hkey := ht.keyed s d hd
  have hknown := h d (by rw [Known, hkey]; exact hd)
  rw [Known, hkey] at hknown
  rw [hknown]
  rfl

theorem Prepared.grows (ht : Tidy c) {d : Draft} (h : Prepared c d) (hg : Grows c c') :
    Prepared c' d := by
  refine ⟨h.parents, fun l hl => ?_⟩
  obtain ⟨k, hk, hknown⟩ := h.targets l hl
  exact ⟨k, hk, isSome_of_grows ht hg hknown⟩

/-- A draft with one more parent and the link to it. -/
theorem Prepared.parent (ht : Tidy c) {d d' : Draft} (h : Prepared c d) (k : Caster)
    (hlinks : d'.links = d.links ++ [((c.typeOf k.target).1.key, .upcast k)])
    (hparents : ∀ p, Parent p d'.descriptor → p = (c.typeOf k.target).1 ∨ Parent p d.descriptor) :
    Prepared (c.typeOf k.target).2 d' := by
  obtain ⟨-, hg, hknown⟩ := ht.typeOf k.target
  have hkey := ht.key_typeOf k.target
  refine ⟨fun p hp => ?_, fun l hl => ?_⟩
  · rw [hlinks]
    rcases hparents p hp with rfl | hp
    · exact ⟨_, List.mem_append_right _ List.mem_cons_self, rfl⟩
    · obtain ⟨l, hl, he⟩ := h.parents p hp
      exact ⟨l, List.mem_append_left _ hl, he⟩
  · rw [hlinks] at hl
    rcases List.mem_append.mp hl with hl | hl
    · exact (h.grows ht hg).targets l hl
    · refine ⟨k, ?_, ?_⟩
      · rw [List.mem_singleton.mp hl, hkey]
      · rw [Known, hkey] at hknown
        rw [hknown]
        rfl

/-- **A clause adds a link with each parent.** -/
theorem prepared_add (ht : Tidy c) {d : Draft} (h : Prepared c d) (clause : Clause) :
    Prepared (d.add c clause).2 (d.add c clause).1 := by
  cases clause with
  | base t =>
      refine h.parent ht (.toBase t) rfl fun p hp => ?_
      rcases hp with hp | hp
      · exact .inl (Option.some.inj hp).symm
      · exact .inr (.inr hp)
  | implements t =>
      refine h.parent ht (.toInterface t) rfl fun p hp => ?_
      rcases hp with hp | hp
      · exact .inr (.inl hp)
      · rcases List.mem_append.mp hp with hp | hp
        · exact .inr (.inr hp)
        · exact .inl (List.mem_singleton.mp hp)
  | nestedIn t =>
      have hsame := h.grows ht (ht.typeOf t).2.1
      exact ⟨hsame.parents, hsame.targets⟩
  | name s => exact ⟨h.parents, h.targets⟩
  | space s => exact ⟨h.parents, h.targets⟩
  | noSpace => exact ⟨h.parents, h.targets⟩
  | valueType => exact ⟨h.parents, h.targets⟩
  | primitive => exact ⟨h.parents, h.targets⟩
  | abstractType => exact ⟨h.parents, h.targets⟩
  | anonymous => exact ⟨h.parents, h.targets⟩
  | instanceOf definition arguments => exact ⟨h.parents, h.targets⟩
  | property name source => exact ⟨h.parents, h.targets⟩
  | displayable => exact ⟨h.parents, h.targets⟩

theorem Linked.mention (h : Linked c) (clause : Clause) : Linked (c.mention clause) := by
  cases clause with
  | nestedIn t => exact h.typeOf t
  | base t => exact h.typeOf t
  | implements t => exact h.typeOf t
  | name s => exact h
  | space s => exact h
  | noSpace => exact h
  | valueType => exact h
  | primitive => exact h
  | abstractType => exact h
  | anonymous => exact h
  | instanceOf definition arguments => exact h
  | property name source => exact h
  | displayable => exact h

theorem linked_mentions (clauses : List Clause) : ∀ {c : Catalog}, Linked c →
    Linked (clauses.foldl Catalog.mention c) := by
  induction clauses with
  | nil => exact fun h => h
  | cons clause rest ih => exact fun h => ih (h.mention clause)

theorem prepared_addAll (clauses : List Clause) : ∀ {c : Catalog} {d : Draft}, Tidy c →
    Fits c d.descriptor →
    (d.descriptor.isInterface = false ∨ ∀ clause ∈ clauses, clause.suitsInterface) →
    Prepared c d → Prepared (d.addAll c clauses).2 (d.addAll c clauses).1 := by
  induction clauses with
  | nil => intro c d _ _ _ h; exact h
  | cons clause rest ih =>
      intro c d ht hd hs h
      have hclause := drafted_add ht hd clause (hs.imp id fun h => h clause List.mem_cons_self)
      refine ih hclause.tidy hclause.fits ?_ (prepared_add ht h clause)
      exact hs.imp hclause.interface fun h k hk => h k (List.mem_cons_of_mem _ hk)

/-- What publishing makes of the links. -/
theorem links_foldl (source : TypeKey) (links : List (TypeKey × Link)) : ∀ (c : Catalog),
    let c' := links.foldl (fun c l => c.insertLink source l.1 l.2) c
    (∀ s t, s ≠ source → c'.links.get? (s, t) = c.links.get? (s, t)) ∧
    (∀ t l, c'.links.get? (source, t) = some l →
      (t, l) ∈ links ∨ c.links.get? (source, t) = some l) ∧
    (∀ l ∈ links, ∃ l' ∈ links, l'.1 = l.1 ∧ c'.links.get? (source, l.1) = some l'.2) := by
  -- Induction at the end, where the link that was added last is found first.
  induction links using List.reverseRecOn with
  | nil => intro c; exact ⟨fun _ _ _ => rfl, fun _ _ h => .inr h, nofun⟩
  | append_singleton links x ih =>
      intro c
      obtain ⟨hother, hfound, hadded⟩ := ih c
      have hget (s t : TypeKey) := get?_insertLink
        (links.foldl (fun c l => c.insertLink source l.1 l.2) c) x.2 source x.1 s t
      simp only [List.foldl_append, List.foldl_cons, List.foldl_nil]
      refine ⟨fun s t hs => ?_, fun t l hl => ?_, fun l hl => ?_⟩
      · rw [hget, if_neg fun he => hs (Prod.mk.inj he).1.symm]
        exact hother s t hs
      · rw [hget] at hl
        split at hl
        · next he =>
            cases hl
            rw [← (Prod.mk.inj he).2]
            exact .inl (List.mem_append_right _ List.mem_cons_self)
        · exact (hfound t l hl).imp (List.mem_append_left _) id
      · by_cases he : x.1 = l.1
        · refine ⟨x, List.mem_append_right _ List.mem_cons_self, he, ?_⟩
          rw [hget, if_pos (by rw [he])]
        · have hl : l ∈ links := by
            rcases List.mem_append.mp hl with hl | hl
            · exact hl
            · exact absurd (by rw [List.mem_singleton.mp hl]) he
          obtain ⟨l', hl', hkey, hsome⟩ := hadded l hl
          refine ⟨l', List.mem_append_left _ hl', hkey, ?_⟩
          rw [hget, if_neg fun h => he (Prod.mk.inj h).2]
          exact hsome

/-- Some rank is above those of finitely many types. -/
theorem exists_above (rank : TypeKey → Nat) (links : List (TypeKey × Link)) :
    ∃ n, ∀ l ∈ links, rank l.1 < n := by
  induction links with
  | nil => exact ⟨0, nofun⟩
  | cons x rest ih =>
      obtain ⟨n, hn⟩ := ih
      refine ⟨max (rank x.1 + 1) n, fun l hl => ?_⟩
      rcases List.mem_cons.mp hl with rfl | hl
      · omega
      · have hlt := hn l hl
        omega

/-- The links that a published draft leads to. -/
structure Published (c : Catalog) (d : Draft) (c' : Catalog) : Prop where
  types : ∀ k, c'.get? k = if d.descriptor.key = k then some d.descriptor else c.get? k
  others : ∀ s t, s ≠ d.descriptor.key → c'.links.get? (s, t) = c.links.get? (s, t)
  own : ∀ t l, c'.links.get? (d.descriptor.key, t) = some l →
    (t, l) ∈ d.links ∨ (t = d.descriptor.key ∧ l = loop t)
  targets : ∀ l ∈ d.links, ∃ l' ∈ d.links, l'.1 = l.1 ∧
    c'.links.get? (d.descriptor.key, l.1) = some l'.2

/-- **A new type that is published with its links leaves the catalogue linked.** -/
theorem Published.linked {d : Draft} (hp : Published c d c') (h : Linked c) (hd : Prepared c d)
    (hnew : c.get? d.descriptor.key = none) (hobject : d.descriptor.key ≠ objectType.key) :
    Linked c' := by
  have hgrown {k : TypeKey} (hk : (c.get? k).isSome = true) : (c'.get? k).isSome = true := by
    rw [hp.types]
    split
    · rfl
    · exact hk
  have hself : (c'.get? d.descriptor.key).isSome = true := by rw [hp.types, if_pos rfl]; rfl
  -- A target of the draft was known before, so it is another type.
  have htarget {t : TypeKey} {l : Link} (hl : (t, l) ∈ d.links) :
      t ≠ d.descriptor.key ∧ (c.get? t).isSome = true ∧
        ∃ k, t = .host k.target ∧ l = .upcast k := by
    obtain ⟨k, hk, hknown⟩ := hd.targets _ hl
    obtain ⟨rfl, rfl⟩ := Prod.mk.inj hk
    refine ⟨fun he => ?_, hknown, k, rfl, rfl⟩
    rw [he, hnew] at hknown
    cases hknown
  obtain ⟨rank, hrank⟩ := h.ordered
  obtain ⟨n, hn⟩ := exists_above rank d.links
  refine ⟨?parents, ?loops, ?steps, ?known, ?object, ?ordered⟩
  case parents =>
    intro x p hx hparent
    rw [Known, hp.types] at hx
    split at hx
    · cases hx
      obtain ⟨l, hl, hkey⟩ := hd.parents p hparent
      obtain ⟨l', hl', hsame, hget⟩ := hp.targets l hl
      obtain ⟨-, -, k, -, hk⟩ := htarget hl'
      exact ⟨k, by rw [Steps, ← hkey, hget, hk]⟩
    · next hne =>
        obtain ⟨k, hk⟩ := h.parents x p hx hparent
        exact ⟨k, by rw [Steps, hp.others _ _ (Ne.symm hne)]; exact hk⟩
  case loops =>
    intro k l hl
    by_cases he : k = d.descriptor.key
    · rw [he] at hl ⊢
      rcases hp.own _ _ hl with hmem | ⟨-, rfl⟩
      · exact absurd rfl (htarget hmem).1
      · rfl
    · rw [hp.others _ _ he] at hl
      exact h.loops k l hl
  case steps =>
    intro s t l hl hne
    by_cases he : s = d.descriptor.key
    · rw [he] at hl
      rcases hp.own _ _ hl with hmem | ⟨ht, -⟩
      · obtain ⟨-, -, k, ht, hk⟩ := htarget hmem
        exact ⟨k, hk, ht⟩
      · exact absurd (he.trans ht.symm) hne
    · rw [hp.others _ _ he] at hl
      exact h.steps s t l hl hne
  case known =>
    intro s t l hl
    by_cases he : s = d.descriptor.key
    · rw [he] at hl ⊢
      rcases hp.own _ _ hl with hmem | ⟨ht, -⟩
      · exact ⟨hself, hgrown (htarget hmem).2.1⟩
      · rw [ht]
        exact ⟨hself, hself⟩
    · rw [hp.others _ _ he] at hl
      obtain ⟨hs, ht⟩ := h.known s t l hl
      exact ⟨hgrown hs, hgrown ht⟩
  case object =>
    intro t k hs
    rw [Steps, hp.others _ _ (Ne.symm hobject)] at hs
    exact h.object t k hs
  case ordered =>
    -- The new type comes after everything that it leads to.
    refine ⟨fun k => if k = d.descriptor.key then n else rank k, fun s t k hs => ?_⟩
    by_cases he : s = d.descriptor.key
    · rw [Steps, he] at hs
      rcases hp.own _ _ hs with hmem | ⟨-, hloop⟩
      · dsimp only
        rw [if_neg (htarget hmem).1, if_pos he]
        exact hn _ hmem
      · unfold Catalog.loop at hloop
        split at hloop <;> cases hloop
    · rw [Steps, hp.others _ _ he] at hs
      have hlt := hrank s t k hs
      have ht : t ≠ d.descriptor.key := by
        rintro rfl
        have hknown := (h.known s _ _ hs).2
        rw [hnew] at hknown
        cases hknown
      dsimp only
      rw [if_neg ht, if_neg he]
      exact hlt

theorem published_publish {d : Draft}
    (htypes : c'.types = c.types)
    (hothers : ∀ s t, s ≠ d.descriptor.key → c'.links.get? (s, t) = c.links.get? (s, t))
    (hown : ∀ t l, c'.links.get? (d.descriptor.key, t) = some l →
      t = d.descriptor.key ∧ l = loop t) :
    Published c d (c'.publish d).2 := by
  obtain ⟨hleft, hfound, hadded⟩ := links_foldl d.descriptor.key d.links c'
  refine ⟨fun k => ?_, fun s t hs => (hleft s t hs).trans (hothers s t hs), fun t l hl => ?_,
    hadded⟩
  · have hget := get?_insert c' d.descriptor k
    have hsame : c'.get? k = c.get? k := by rw [get?, get?, htypes]
    rw [hsame] at hget
    rw [← hget, get?, get?, types_publish]
  · exact (hfound t l hl).imp id (hown t l)

/-- Nothing leads away from a type that is not known. -/
theorem Linked.of_unknown (h : Linked c) (hs : c.get? s = none) (l : Link) :
    c.links.get? (s, t) ≠ some l := by
  intro hl
  have hknown := (h.known s t l hl).1
  rw [hs] at hknown
  cases hknown

theorem prepared_start {d : Draft} (hlinks : d.links = []) (hb : d.descriptor.base = none)
    (hi : d.descriptor.interfaces = []) : Prepared c d := by
  refine ⟨fun p hp => absurd hp (not_parent_of_parentless hb hi p), fun l hl => ?_⟩
  rw [hlinks] at hl
  cases hl

theorem Linked.declareFrom (h : Linked c) (ht : Tidy c) {t : HostType} {start : Descriptor}
    {clauses : List Clause} (hs : Fits c start) (hi : start.isInterface = false)
    (hb : start.base = none) (hn : start.interfaces = []) (htext : start.key ≠ .host .text)
    (hobject : start.key ≠ objectType.key)
    (hnew : (clauses.foldl Catalog.mention c).get? start.key = none) :
    Linked (c.declareFrom t start clauses).2 := by
  have hmentioned := linked_mentions clauses h
  have hdraft := drafted_addAll clauses ht (d := ⟨t, start, []⟩) hs (.inl hi)
  have hprepared := prepared_addAll clauses ht (d := ⟨t, start, []⟩) hs (.inl hi)
    (prepared_start rfl hb hn)
  have hkey := hdraft.key
  rw [← addAll_catalog clauses c ⟨t, start, []⟩] at hmentioned hnew
  unfold Catalog.declareFrom
  generalize Draft.addAll c ⟨t, start, []⟩ clauses = r at hmentioned hnew hprepared hkey ⊢
  obtain ⟨d, c₁⟩ := r
  have hkey : d.descriptor.key = start.key := hkey
  rw [← hkey] at hnew htext hobject
  refine Published.linked (published_publish (c := c₁) rfl ?_ ?_) hmentioned hprepared hnew hobject
  · intro s t hne
    rw [get?_insertLink, if_neg fun he => hne (Prod.mk.inj he).1.symm]
  · intro t l hl
    rw [get?_insertLink] at hl
    split at hl
    · next he =>
        cases hl
        have hkey : d.descriptor.key = t := (Prod.mk.inj he).2
        refine ⟨hkey.symm, ?_⟩
        rw [Catalog.loop, if_neg (hkey ▸ htext)]
    · exact absurd hl (hmentioned.of_unknown hnew l)

theorem Linked.declareInterface (h : Linked c) (ht : Tidy c) {t : HostType} {clauses : List Clause}
    (hs : ∀ clause ∈ clauses, clause.suitsInterface) (hobject : t ≠ .object)
    (hnew : (clauses.foldl Catalog.mention c).get? (.host t) = none) :
    Linked (c.declareInterface t clauses).2 := by
  have hfits : Fits c (c.start t .interface) :=
    ⟨fun p hp => absurd hp (not_parent_of_parentless rfl rfl p), rfl, fun _ => ⟨rfl, rfl⟩⟩
  have hmentioned := linked_mentions clauses h
  have hdraft := drafted_addAll clauses ht (d := ⟨t, c.start t .interface, []⟩) hfits (.inr hs)
  have hprepared := prepared_addAll clauses ht (d := ⟨t, c.start t .interface, []⟩) hfits (.inr hs)
    (prepared_start rfl rfl rfl)
  have hkey := hdraft.key
  rw [← addAll_catalog clauses c ⟨t, c.start t .interface, []⟩] at hmentioned hnew
  unfold Catalog.declareInterface
  generalize Draft.addAll c ⟨t, c.start t .interface, []⟩ clauses = r
    at hmentioned hnew hprepared hkey ⊢
  obtain ⟨d, c₁⟩ := r
  have hkey : d.descriptor.key = .host t := hkey
  have hother : d.descriptor.key ≠ objectType.key := by
    rw [hkey]
    intro he
    exact hobject (TypeKey.host.inj he)
  rw [← hkey] at hnew
  refine Published.linked (published_publish rfl (fun _ _ _ => rfl) ?_) hmentioned hprepared hnew
    hother
  intro t l hl
  exact absurd hl (hmentioned.of_unknown hnew l)

/-! ## §3. Links that stay. -/

/-- Every link of `c` is replaced at most. -/
def Extends (c c' : Catalog) : Prop :=
  ∀ p, (c.links.get? p).isSome = true → (c'.links.get? p).isSome = true

theorem Extends.refl (c : Catalog) : Extends c c := fun _ h => h

theorem Extends.trans {c₁ c₂ c₃ : Catalog} (h₁ : Extends c₁ c₂) (h₂ : Extends c₂ c₃) :
    Extends c₁ c₃ := fun p h => h₂ p (h₁ p h)

theorem extends_insertLink (c : Catalog) (s t : TypeKey) (l : Link) :
    Extends c (c.insertLink s t l) := by
  rintro ⟨s', t'⟩ h
  rw [get?_insertLink]
  split
  · rfl
  · exact h

theorem extends_typeOf (c : Catalog) (t : HostType) : Extends c (c.typeOf t).2 := by
  unfold Catalog.typeOf
  split
  · exact .refl c
  · exact fun _ h => h

theorem extends_mention (c : Catalog) (clause : Clause) : Extends c (c.mention clause) := by
  unfold mention
  split
  · exact extends_typeOf c _
  · exact extends_typeOf c _
  · exact extends_typeOf c _
  · exact .refl c

theorem extends_mentions (clauses : List Clause) : ∀ c : Catalog,
    Extends c (clauses.foldl Catalog.mention c) := by
  induction clauses with
  | nil => exact .refl
  | cons clause rest ih => exact fun c => (extends_mention c clause).trans (ih _)

theorem extends_named (c : Catalog) (key : String) (make : TypeKey → Descriptor) :
    Extends c (c.named key make).2 := by
  unfold Catalog.named
  split
  · exact .refl c
  · exact fun _ h => h

theorem extends_publish (c : Catalog) (d : Draft) : Extends c (c.publish d).2 := by
  have hall (links : List (TypeKey × Link)) : ∀ c : Catalog,
      Extends c (links.foldl (fun c l => c.insertLink d.descriptor.key l.1 l.2) c) := by
    induction links with
    | nil => exact .refl
    | cons l rest ih => exact fun c => (extends_insertLink c _ _ _).trans (ih _)
  exact hall d.links c

theorem extends_declareFrom (c : Catalog) (t : HostType) (start : Descriptor)
    (clauses : List Clause) : Extends c (c.declareFrom t start clauses).2 := by
  have hmentioned := extends_mentions clauses c
  rw [← addAll_catalog clauses c ⟨t, start, []⟩] at hmentioned
  exact (hmentioned.trans (extends_insertLink _ _ _ _)).trans (extends_publish _ _)

theorem extends_declareInterface (c : Catalog) (t : HostType) (clauses : List Clause) :
    Extends c (c.declareInterface t clauses).2 := by
  have hmentioned := extends_mentions clauses c
  rw [← addAll_catalog clauses c ⟨t, c.start t .interface, []⟩] at hmentioned
  exact hmentioned.trans (extends_publish _ _)

theorem get?_insertNew (c : Catalog) (k s t : TypeKey) (l : Link) :
    (c.links.insertNew (k, k) l).get? (s, t) =
      if (k, k) = (s, t) ∧ c.links.get? (k, k) = none then some l else c.links.get? (s, t) :=
  Table.get?_insertNew c.links (k, k) (s, t) l

theorem links_describe (c : Catalog) (t : HostType) : (c.describe t).2.links =
    (c.typeOf t).2.links.insertNew ((c.typeOf t).1.key, (c.typeOf t).1.key) .identity := rfl

theorem extends_describe (c : Catalog) (t : HostType) : Extends c (c.describe t).2 := by
  refine (extends_typeOf c t).trans ?_
  rintro ⟨s, t'⟩ h
  rw [links_describe, get?_insertNew]
  by_cases hnew : ((c.typeOf t).1.key, (c.typeOf t).1.key) = (s, t') ∧
      (c.typeOf t).2.links.get? ((c.typeOf t).1.key, (c.typeOf t).1.key) = none
  · rw [if_pos hnew]
    rfl
  · rw [if_neg hnew]
    exact h

/-! ## §4. The catalogue that everything starts from. -/

/-- There are no conversions: a link leads from a type to itself. -/
def Looped (c : Catalog) : Prop :=
  ∀ s t l, c.links.get? (s, t) = some l → s = t ∧ l = loop s ∧ (c.get? s).isSome = true

theorem Looped.insert (h : Looped c) (d : Descriptor) : Looped (c.insert d) := by
  intro s t l hl
  obtain ⟨he, hloop, hs⟩ := h s t l hl
  exact ⟨he, hloop, isSome_insert hs⟩

/-- A type that can be seen as itself. -/
theorem Looped.loop (h : Looped c) {k : TypeKey} (hk : (c.get? k).isSome = true) {l : Link}
    (hl : l = Catalog.loop k) : Looped (c.insertLink k k l) := by
  intro s t l' hl'
  rw [get?_insertLink] at hl'
  split at hl'
  · next he =>
      obtain ⟨rfl, rfl⟩ := Prod.mk.inj he
      cases hl'
      exact ⟨rfl, hl, hk⟩
  · exact h s t l' hl'

theorem Looped.typeOf (h : Looped c) (t : HostType) : Looped (c.typeOf t).2 := by
  unfold Catalog.typeOf
  split
  · exact h
  · exact h.insert _

theorem links_addAll_isFact (clauses : List Clause) : ∀ {c : Catalog} {d : Draft},
    clauses.all Clause.isFact = true → (d.addAll c clauses).1.links = d.links := by
  induction clauses with
  | nil => intro c d _; rfl
  | cons clause rest ih =>
      intro c d hs
      rw [List.all_cons, Bool.and_eq_true] at hs
      have hadd : (d.add c clause).1.links = d.links := by
        cases clause with
        | base t => cases hs.1
        | implements t => cases hs.1
        | _ => rfl
      exact (ih hs.2).trans hadd

/-- A declaration that names no other type adds a type that can be seen as itself. -/
theorem Looped.declareFrom (h : Looped c) {t : HostType} {start : Descriptor}
    {clauses : List Clause} (hs : clauses.all Clause.isFact = true)
    (htext : start.key ≠ .host .text) : Looped (c.declareFrom t start clauses).2 := by
  have hshape := sameShape_addAll (d := ⟨t, start, []⟩) clauses (c := c) hs
  have hlinks := links_addAll_isFact (c := c) (d := ⟨t, start, []⟩) clauses hs
  unfold Catalog.declareFrom
  generalize Draft.addAll c ⟨t, start, []⟩ clauses = r at hshape hlinks ⊢
  obtain ⟨d, c₁⟩ := r
  obtain rfl : c₁ = c := hshape.catalog
  have hkey : d.descriptor.key = start.key := hshape.key
  have hempty : d.links = [] := hlinks
  have hpublish : ((c₁.insertLink d.descriptor.key d.descriptor.key .identity).publish d).2 =
      (c₁.insert d.descriptor).insertLink d.descriptor.key d.descriptor.key .identity := by
    unfold Catalog.publish
    rw [hempty]
    rfl
  show Looped ((c₁.insertLink d.descriptor.key d.descriptor.key .identity).publish d).2
  rw [hpublish]
  refine (h.insert _).loop ?_ ?_
  · rw [get?_insert, if_pos rfl]
    rfl
  · rw [hkey, Catalog.loop, if_neg htext]

theorem Looped.withType (h : Looped c) {t : HostType} {clauses : List Clause} (ht : t ≠ .text)
    (hs : clauses.all Clause.isFact = true) : Looped (c.withType t clauses) :=
  h.declareFrom hs fun he => ht (TypeKey.host.inj he)

theorem Looped.withNullable (h : Looped c) (t : HostType) : Looped (c.withNullable t) :=
  (h.typeOf t).declareFrom rfl fun he => by cases he

theorem looped_withPrimitives (ps : List (HostType × String)) : ∀ {c : Catalog}, Looped c →
    (∀ p ∈ ps, p.1 ≠ .text) → Looped (ps.foldl (fun c p => c.withPrimitive p.1 p.2) c) := by
  induction ps with
  | nil => intro c h _; exact h
  | cons p ps ih =>
      intro c h hp
      refine ih ?_ fun q hq => hp q (List.mem_cons_of_mem _ hq)
      exact (h.withType (hp p List.mem_cons_self) rfl).withNullable p.1

theorem Looped.declareDisplay (h : Looped c) :
    Looped (c.declareInterface .display [.name "IFormattable", .space "System"]).2 :=
  h.insert _

/-- Texts can be seen as themselves. -/
theorem Looped.withText (h : Looped c) {d : Descriptor} (hd : d.key = .host .text) :
    Looped ((c.insert d).insertLink (.host .text) (.host .text) .textIdentity) := by
  refine (h.insert d).loop ?_ rfl
  rw [get?_insert, if_pos hd]
  rfl

theorem extends_withType (c : Catalog) (t : HostType) (clauses : List Clause) :
    Extends c (c.withType t clauses) := extends_declareFrom c t _ clauses

theorem extends_withNullable (c : Catalog) (t : HostType) : Extends c (c.withNullable t) :=
  (extends_typeOf c t).trans (extends_declareFrom _ _ _ [])

/-- **There are no conversions in the beginning**, and texts can be seen as themselves. -/
theorem looped_new (spelling : HostSpelling) (parts : Parts) : Looped (new spelling parts) ∧
    ((new spelling parts).links.get? (.host .text, .host .text)).isSome = true := by
  have hempty : Looped ({ spelling := spelling, parts := parts } : Catalog) := by
    intro s t l hl
    cases hl
  have hstart := ((hempty.insert objectType).insert arrayMarker).insert nullableDefinition
  have hprimitives := looped_withPrimitives primitives hstart.declareDisplay (by decide)
  unfold new
  dsimp only
  -- From the last type that is put in to the texts.
  constructor
  · refine Looped.withType ?_ (by decide) rfl
    refine Looped.withType ?_ (by decide) rfl
    refine Looped.withNullable ?_ .uuid
    refine Looped.withType ?_ (by decide) rfl
    refine Looped.withNullable ?_ .time
    refine Looped.withType ?_ (by decide) rfl
    refine Looped.withNullable ?_ .duration
    refine Looped.withType ?_ (by decide) rfl
    refine Looped.withType ?_ (by decide) rfl
    exact hprimitives.withText rfl
  · refine extends_withType _ _ _ _ (extends_withType _ _ _ _ ?_)
    refine extends_withNullable _ _ _ (extends_withType _ _ _ _ ?_)
    refine extends_withNullable _ _ _ (extends_withType _ _ _ _ ?_)
    refine extends_withNullable _ _ _ (extends_withType _ _ _ _ ?_)
    refine extends_withType _ _ _ _ ?_
    rw [get?_insertLink, if_pos rfl]
    rfl

theorem Looped.linked (h : Looped c) (hflat : Flat c) : Linked c := by
  have hnone {s t : TypeKey} {k : Caster} (hs : Steps c s t k) : False := by
    have hloop := (h s t _ hs).2.1
    unfold Catalog.loop at hloop
    split at hloop <;> cases hloop
  refine ⟨?_, fun k l hl => (h k k l hl).2.1, fun s t l hl hne => absurd (h s t l hl).1 hne,
    fun s t l hl => ?_, fun t k hs => hnone hs, fun _ => 0, fun s t k hs => (hnone hs).elim⟩
  · intro d p hd hp
    obtain ⟨hb, hi, -⟩ := hflat.plain _ d hd
    exact absurd hp (not_parent_of_parentless hb hi p)
  · obtain ⟨rfl, -, hs⟩ := h s t l hl
    exact ⟨hs, hs⟩

/-! ## §5. Orderly catalogues. -/

/-- Nothing is declared that is known from the beginning. -/
theorem ne_of_unmentioned {t : HostType} {clauses : List Clause} {k : TypeKey} (ht : Tidy c)
    (hnew : Unmentioned c t clauses) (hk : (c.get? k).isSome = true) : .host t ≠ k := by
  rintro rfl
  -- What is known stays known while the clauses are read.
  have hgrown : ∀ (clauses : List Clause) {c : Catalog}, Tidy c →
      (c.get? (.host t)).isSome = true →
      ((clauses.foldl Catalog.mention c).get? (.host t)).isSome = true := by
    intro clauses
    induction clauses with
    | nil => exact fun _ h => h
    | cons clause rest ih =>
        intro c ht hk
        have hmention : Tidy (c.mention clause) ∧ Grows c (c.mention clause) := by
          unfold mention
          split
          · exact ⟨(ht.typeOf _).1, (ht.typeOf _).2.1⟩
          · exact ⟨(ht.typeOf _).1, (ht.typeOf _).2.1⟩
          · exact ⟨(ht.typeOf _).1, (ht.typeOf _).2.1⟩
          · exact ⟨ht, .refl c⟩
        exact ih hmention.1 (isSome_of_grows ht hmention.2 hk)
  have hknown := hgrown clauses ht hk
  rw [hnew] at hknown
  cases hknown

theorem Tidy.isSome_object (h : Tidy c) : (c.get? objectType.key).isSome = true := by
  have hobject := h.object
  rw [Known] at hobject
  rw [hobject]
  rfl

/-- What is needed of the texts: they are known, and can be seen as themselves. -/
structure Linked.WithText (c : Catalog) : Prop extends Linked c where
  text : (c.links.get? (.host .text, .host .text)).isSome = true

theorem Linked.WithText.isSome (h : Linked.WithText c) : (c.get? (.host .text)).isSome = true := by
  obtain ⟨l, hl⟩ := Option.isSome_iff_exists.mp h.text
  exact (h.known _ _ l hl).1

/-- Describing a type adds a link only if there is none. -/
theorem Linked.WithText.describe (h : Linked.WithText c) (ht : Tidy c) (t : HostType) :
    Linked (c.describe t).2 := by
  have hlinked := h.toLinked.typeOf t
  have htext := extends_typeOf c t _ h.text
  have hknown := (ht.typeOf t).2.2
  unfold Catalog.describe Table.insertNew Table.contains
  generalize c.typeOf t = r at hlinked htext hknown ⊢
  obtain ⟨d, c₁⟩ := r
  dsimp only at hlinked htext hknown ⊢
  split
  · exact hlinked
  · next hnone =>
      have hother : d.key ≠ .host .text := fun he => hnone (he ▸ htext)
      have hloop := hlinked.loop (k := d.key) (by rw [hknown]; rfl)
      rwa [Catalog.loop, if_neg hother] at hloop

/-- **The links of an orderly catalogue.** -/
theorem Orderly.linked (h : Orderly c) : Linked.WithText c := by
  induction h with
  | new spelling parts =>
      obtain ⟨hlooped, htext⟩ := looped_new spelling parts
      exact ⟨hlooped.linked (flat_new spelling parts), htext⟩
  | typeOf t _ ih => exact ⟨ih.toLinked.typeOf t, extends_typeOf _ t _ ih.text⟩
  | describe t hc ih => exact ⟨ih.describe hc.tidy t, extends_describe _ t _ ih.text⟩
  | genericDefinition space name arity _ ih =>
      exact ⟨ih.toLinked.named (not_parent_of_parentless rfl rfl), extends_named _ _ _ _ ih.text⟩
  | genericParameter name _ ih =>
      exact ⟨ih.toLinked.named (not_parent_of_parentless rfl rfl), extends_named _ _ _ _ ih.text⟩
  | pointerTo d _ ih =>
      exact ⟨ih.toLinked.named (not_parent_of_parentless rfl rfl), extends_named _ _ _ _ ih.text⟩
  | byRef d _ ih =>
      exact ⟨ih.toLinked.named (not_parent_of_parentless rfl rfl), extends_named _ _ _ _ ih.text⟩
  | declare t clauses hc hnew ih =>
      refine ⟨?_, extends_declareFrom _ _ _ _ _ ih.text⟩
      exact ih.toLinked.declareFrom hc.tidy (fits_of_parentless rfl rfl rfl rfl) rfl rfl rfl
        (ne_of_unmentioned hc.tidy hnew ih.isSome)
        (ne_of_unmentioned hc.tidy hnew hc.tidy.isSome_object) hnew
  | declareEnumeration t members clauses hc hnew ih =>
      refine ⟨?_, extends_declareFrom _ _ _ _ _ ih.text⟩
      exact ih.toLinked.declareFrom hc.tidy (fits_of_parentless rfl rfl rfl rfl) rfl rfl rfl
        (ne_of_unmentioned hc.tidy hnew ih.isSome)
        (ne_of_unmentioned hc.tidy hnew hc.tidy.isSome_object) hnew
  | declareInterface t clauses hc hs hnew ih =>
      refine ⟨?_, extends_declareInterface _ _ _ _ ih.text⟩
      refine ih.toLinked.declareInterface hc.tidy hs ?_ hnew
      rintro rfl
      exact ne_of_unmentioned hc.tidy hnew hc.tidy.isSome_object rfl
  | declareNullable t hc hnew ih =>
      unfold Catalog.declareNullable
      have hext := extends_typeOf _ t _ ih.text
      refine ⟨?_, extends_declareFrom _ _ _ _ _ hext⟩
      exact (ih.toLinked.typeOf t).declareFrom (hc.tidy.typeOf t).1
        (fits_of_parentless rfl rfl rfl rfl) rfl rfl rfl nofun nofun hnew
  | declareArray t hc hnew ih =>
      unfold Catalog.declareArray
      have hext := extends_typeOf _ t _ ih.text
      refine ⟨?_, extends_declareFrom _ _ _ _ _ hext⟩
      exact (ih.toLinked.typeOf t).declareFrom (hc.tidy.typeOf t).1
        (fits_of_parentless rfl rfl rfl rfl) rfl rfl rfl nofun nofun hnew

end Catalog
end ValueText
