/-
  ValueText.Proofs.Registry.Precedence — which registration a resolution chooses.

  Of two registrations for a type the more specific one is chosen, whichever was made
  first.  Of three this need not be so: a registration that has nothing to do with
  the first takes its place, and gives it to one that is less specific than the first.

  Main results:

    • `resolution_precedence`   a registration that lost to a less specific one was made
                                before it, and a third one came between the two;
    • `winner?_of_mostSpecific`  a registration that is more specific than all others is
                                chosen.

  The first comes with a type for which a less specific registration is chosen.
-/
import ValueText.Proofs.Registry.History
import ValueText.Proofs.Types.Orderly
import ValueText.Registry.Label

namespace ValueText.Factory

open Descriptor (Family Plain)
open Preference (champion champion_displaced champion_hidden)

variable {ε σ : Type} {K : Descriptor → Prop} {f : Factory ε σ} {X : Descriptor}

/-! ## §1. The registrations that apply. -/

/-- A registration that applies to a type: an extension for the type or a supertype, or a
constructor that makes an extension for one of them. -/
inductive Applies (K : Descriptor → Prop) (f : Factory ε σ) (X : Descriptor) : Candidate ε → Prop
  | instance {k : TypeKey} {i : InstanceEntry ε} (hi : f.instances.get? k = some i)
      (h : i.target.isAssignableFrom X = true) : Applies K f X (InstanceEntry.candidate i)
  | generic {d g : Descriptor} {r : GenericEntry ε} {e : ε} (hd : K d)
      (h : d.isAssignableFrom X = true) (hg : d.definition = some g)
      (hr : f.generics.get? g.key = some r) (he : f.attempt r.constructor d = .ok e) :
      Applies K f X (GenericEntry.candidate r g.key d)

/-- What applies is a candidate, whatever was set aside. -/
theorem Applies.mem_candidates (hK : Family K) (hf : Sound K f) (hX : K X) {r : Candidate ε}
    (h : Applies K f X r) {only : TypeKey → Prop} {f' : Factory ε σ} (hf' : Sound K f')
    (hworked : Worked only f f') : r ∈ f'.candidates X := by
  rw [Factory.mem_candidates]
  cases h with
  | @«instance» k i hi h =>
      obtain ⟨hkey, ht⟩ := hf.instance_ k i hi
      refine ⟨i.target, hK.mem_chain_of_isAssignableFrom ht hX h, .instance ?_⟩
      rw [hworked.instances, hkey]
      exact hi
  | @generic d g r e hd h hg hr he =>
      have hr' : f'.generics.get? g.key = some r := by
        rw [hworked.generics]
        exact hr
      -- Only constructors that fail are set aside.
      refine ⟨d, hK.mem_chain_of_isAssignableFrom hd hX h, .generic hg hr' ?_⟩
      exact hf'.not_mem_failed hr' hd ((hworked.attempt r.constructor d).trans he)

/-! ## §2. Third registrations. -/

/-- How `r` lost its place although it is more specific than `s`: to a third one that does not
keep it before `s`. -/
def Overtaken (order : List (Candidate ε)) (r s : Candidate ε) : Prop :=
  ∃ t, ¬ t.claim.MoreSpecific s.claim ∧
    ([r, t, s].Sublist order ∨ [t, r, s].Sublist order ∧ t.claim.MoreSpecific r.claim)

/-- Between the two came a third one that has nothing to do with `r`. -/
def Hidden (order : List (Candidate ε)) (r s : Candidate ε) : Prop :=
  ∃ t, t.claim.Unrelated r.claim ∧ [r, t, s].Sublist order

theorem keeps_iff_moreSpecific (hK : Family K) (hf : Sound K f) (hX : K X) {a b : Candidate ε}
    (ha : a ∈ f.candidates X) (hb : b ∈ f.candidates X) :
    a.keeps b = true ↔ a.claim.MoreSpecific b.claim :=
  Claim.keeps_iff hK (known_claims hK hf hX _ (List.mem_map_of_mem ha))
    (known_claims hK hf hX _ (List.mem_map_of_mem hb))

theorem known_candidates (hK : Family K) (hf : Sound K f) (hX : K X) :
    ∀ x ∈ f.candidates X, K x.claim.target :=
  fun _ hx => known_claims hK hf hX _ (List.mem_map_of_mem hx)

theorem overtaken_of_winner (hK : Family K) (hf : Sound K f) (hX : K X) {r s : Candidate ε}
    (hs : f.winner? X = some s) (hr : r ∈ f.candidates X) (hlt : r.claim.MoreSpecific s.claim) :
    Overtaken (f.candidates X) r s := by
  rw [winner?_eq_champion] at hs
  have hsm := Preference.champion_mem hs
  have hkeeps := (keeps_iff_moreSpecific hK hf hX hr hsm).mpr hlt
  obtain ⟨t, hts, hsub⟩ := champion_displaced
    (Candidate.asymmetric hK (known_candidates hK hf hX)) hs hr hkeeps
  have htm : t ∈ f.candidates X := by
    rcases hsub with hsub | ⟨hsub, -⟩
    · exact hsub.subset (by simp)
    · exact hsub.subset (by simp)
  refine ⟨t, fun h => ?_, hsub.imp_right fun h => ⟨h.1, ?_⟩⟩
  · rw [(keeps_iff_moreSpecific hK hf hX htm hsm).mpr h] at hts
    cases hts
  · exact (keeps_iff_moreSpecific hK hf hX htm hr).mp h.2

theorem hidden_of_winner (hK : Family K) (hP : Plain K) (hf : Sound K f) (hX : K X)
    {r s : Candidate ε} (hs : f.winner? X = some s) (hr : r ∈ f.candidates X)
    (hlt : r.claim.MoreSpecific s.claim) : Hidden (f.candidates X) r s := by
  rw [winner?_eq_champion] at hs
  have hkeeps := (keeps_iff_moreSpecific hK hf hX hr (Preference.champion_mem hs)).mpr hlt
  obtain ⟨t, hrt, htr, hsub⟩ := champion_hidden
    (Candidate.asymmetric hK (known_candidates hK hf hX))
    (Candidate.transitive hK hP (known_candidates hK hf hX)) hs hr hkeeps
  have htm : t ∈ f.candidates X := hsub.subset (by simp)
  refine ⟨t, ⟨fun h => ?_, fun h => ?_⟩, hsub⟩
  · rw [(keeps_iff_moreSpecific hK hf hX htm hr).mpr h] at htr
    cases htr
  · rw [(keeps_iff_moreSpecific hK hf hX hr htm).mpr h] at hrt
    cases hrt

/-! ## §3. The registration that is chosen. -/

/-- What `resolve` chooses is the winner among the candidates that are left. -/
theorem winner?_of_resolve (hK : Family K) (hf : Sound K f) (hX : K X) {fallback : Descriptor → ε}
    {claim : Claim} (h : (f.resolve X none fallback).1.source = some claim) :
    Sound K (f.resolve X none fallback).2.1 ∧
      Worked (fun _ => True) f (f.resolve X none fallback).2.1 ∧
      ∃ s, (f.resolve X none fallback).2.1.winner? X = some s ∧ s.claim = claim := by
  obtain ⟨r, f₁, ns, hsync, hsound, hworked, -, heq⟩ := inSync_resolve hK hf hX none fallback
  rw [heq] at h ⊢
  refine ⟨hsound, hworked, ?_⟩
  have hleader := hsync.source.symm.trans h
  rw [leader?_eq, Option.map_eq_some_iff] at hleader
  exact hleader

/-- **A registration that lost to a less specific one was made before it, and a third one
came in between**: one that does not keep its place before the one that is chosen.  If only
interfaces are implemented, the third was made after the first and has nothing to do with it. -/
theorem resolution_precedence [Extension ε] {c : Catalog} (hc : c.Orderly)
    (role : Option Descriptor) (reports : Bool) {qs : List (Request ε σ)}
    (hqs : ∀ q ∈ qs, q.Within c.Known) (hX : c.Known X)
    (hf : f = ((new role reports).run qs).1) (fallback : Descriptor → ε) {claim : Claim}
    (hclaim : (f.resolve X none fallback).1.source = some claim) {r : Candidate ε}
    (hr : Applies c.Known f X r) (hlt : r.claim.MoreSpecific claim) :
    ∃ s, s.claim = claim ∧
      Overtaken ((f.resolve X none fallback).2.1.candidates X) r s ∧
      (c.ImplementsInterfaces → Hidden ((f.resolve X none fallback).2.1.candidates X) r s) := by
  have hK := hc.family
  have hsound : Sound c.Known f := by
    rw [hf]
    exact (sound_new role reports).run hK qs hqs
  -- The candidates are those that are left once failing constructors were set aside.
  obtain ⟨hsound', hworked, s, hs, rfl⟩ := winner?_of_resolve hK hsound hX hclaim
  have hmem := hr.mem_candidates hK hsound hX hsound' hworked
  exact ⟨s, rfl, overtaken_of_winner hK hsound' hX hs hmem hlt, fun hi =>
    hidden_of_winner hK (hc.plain hi) hsound' hX hs hmem hlt⟩

/-- **A registration that is more specific than all others is chosen.** -/
theorem winner?_of_mostSpecific (hK : Family K) (hf : Sound K f) (hX : K X) {r : Candidate ε}
    (hr : r ∈ f.candidates X)
    (hbest : ∀ t ∈ f.candidates X, t = r ∨ r.claim.MoreSpecific t.claim) :
    f.winner? X = some r := by
  rw [winner?_eq_champion]
  refine Preference.champion_eq hr fun t ht => (hbest t ht).imp_right fun hlt => ?_
  have hkeeps := (keeps_iff_moreSpecific hK hf hX hr ht).mpr hlt
  exact ⟨hkeeps, Candidate.asymmetric hK (known_candidates hK hf hX) r hr t ht hkeeps⟩

/-! ## §4. A player is drawn as a drawable. -/

/-- A sprite is a drawable; a player is a shape and a sprite. -/
def sprites : Catalog :=
  let c := ((Catalog.new Catalog.shortPaths).declareInterface (.other "Shape") []).2
  let c := (c.declareInterface (.other "Drawable") []).2
  let c := (c.declareInterface (.other "Sprite") [.implements (.other "Drawable")]).2
  (c.declare (.other "Player") [.implements (.other "Shape"), .implements (.other "Sprite")]).2

/-- One of the types of `sprites`. -/
def sprite (path : String) : Descriptor := (sprites.typeOf (.other path)).1

/-- Extensions for sprites, for shapes and for drawables, in this order. -/
def drawings : List (Request Label Unit) :=
  ["Sprite", "Shape", "Drawable"].map fun path => .registerInstance (sprite path) ⟨path, none⟩

theorem orderly_sprites : sprites.Orderly := by
  have hnone {o : Option Descriptor} (h : o.isNone = true) : o = none :=
    Option.isNone_iff_eq_none.mp h
  refine .declare _ _ (.declareInterface _ _ (.declareInterface _ _ (.declareInterface _ _
    (.new _ _) ?_ ?_) ?_ ?_) ?_ ?_) ?_
  · exact nofun
  · exact hnone (by decide +kernel)
  · exact nofun
  · exact hnone (by decide +kernel)
  · intro clause h
    rw [List.mem_singleton.mp h]
    trivial
  · exact hnone (by decide +kernel)
  · exact hnone (by decide +kernel)

theorem implementsInterfaces_sprites : sprites.ImplementsInterfaces :=
  Catalog.implementsInterfaces_of_entries (by decide +kernel)

theorem known_sprite {path : String} (h : path ∈ ["Shape", "Drawable", "Sprite", "Player"]) :
    sprites.Known (sprite path) := by
  have hall : ∀ path ∈ ["Shape", "Drawable", "Sprite", "Player"],
      (sprites.get? (.host (.other path))).isSome = true := by decide +kernel
  exact orderly_sprites.tidy.known_typeOf (hall path h)

theorem within_drawings : ∀ q ∈ drawings, q.Within sprites.Known := by
  intro q hq
  obtain ⟨path, hpath, rfl⟩ := List.mem_map.mp hq
  apply known_sprite
  simp only [List.mem_cons, List.not_mem_nil, or_false] at hpath ⊢
  rcases hpath with rfl | rfl | rfl <;> decide

/-- The drawable is chosen for the player, and the more specific sprite applies as well. -/
theorem player_drawn : ∃ claim r,
    (((new none false).run drawings).1.resolve (sprite "Player") none Label.fallback).1.source =
      some claim ∧
    Applies sprites.Known ((new none false).run drawings).1 (sprite "Player") r ∧
    r.claim.MoreSpecific claim := by
  have hK := orderly_sprites.family
  have hsound := (sound_new none false).run hK drawings within_drawings
  have hplayer : sprites.Known (sprite "Player") := known_sprite (by decide)
  have hsource : ((((new none false).run drawings).1.resolve (sprite "Player") none
      Label.fallback).1.source.map fun c => (c.target.key, c.generic)) =
        some ((sprite "Drawable").key, false) := by decide +kernel
  obtain ⟨claim, hclaim, hkey⟩ := Option.map_eq_some_iff.mp hsource
  obtain ⟨hkey, -⟩ := Prod.mk.inj hkey
  -- The sprite's registration is there, and it is for a type below the drawable.
  obtain ⟨i, hi⟩ := Option.isSome_iff_exists.mp (show
    (((new none false).run drawings).1.instances.get? (sprite "Sprite").key).isSome = true by
      decide +kernel)
  obtain ⟨htarget, hknown⟩ := hsound.instance_ _ _ hi
  have htarget := hK.unique _ _ hknown (known_sprite (by decide)) htarget
  refine ⟨claim, InstanceEntry.candidate i, hclaim, .instance hi ?_, .inr ⟨?_, ?_⟩⟩
  · rw [htarget]
    decide +kernel
  · show i.target.key ≠ claim.target.key
    rw [htarget, hkey]
    decide +kernel
  · show claim.target.isAssignableFrom i.target = true
    rw [htarget]
    unfold Descriptor.isAssignableFrom
    rw [hkey]
    decide +kernel

/-- The extension for sprites lost to the less specific one for drawables. -/
theorem most_specific_lost : ¬ ∀ (c : Catalog) (qs : List (Request Label Unit)) (X : Descriptor),
    c.Orderly → (∀ q ∈ qs, q.Within c.Known) → c.Known X → ∀ claim r,
      (((new none false).run qs).1.resolve X none Label.fallback).1.source = some claim →
      Applies c.Known ((new none false).run qs).1 X r → ¬ r.claim.MoreSpecific claim := by
  intro h
  obtain ⟨claim, r, hclaim, hr, hlt⟩ := player_drawn
  exact h sprites drawings (sprite "Player") orderly_sprites within_drawings
    (known_sprite (by decide)) claim r hclaim hr hlt

/-- Between the sprite and the drawable came the shape. -/
theorem resolution_precedence_player : ∃ claim r,
    (((new none false).run drawings).1.resolve (sprite "Player") none Label.fallback).1.source =
      some claim ∧
    Applies sprites.Known ((new none false).run drawings).1 (sprite "Player") r ∧
    r.claim.MoreSpecific claim ∧
    ∃ s, s.claim = claim ∧ Hidden ((((new none false).run drawings).1.resolve (sprite "Player")
      none Label.fallback).2.1.candidates (sprite "Player")) r s := by
  obtain ⟨claim, r, hclaim, hr, hlt⟩ := player_drawn
  obtain ⟨s, hs, -, hhidden⟩ := resolution_precedence orderly_sprites none false within_drawings
    (known_sprite (by decide)) rfl Label.fallback hclaim hr hlt
  exact ⟨claim, r, hclaim, hr, hlt, s, hs, hhidden implementsInterfaces_sprites⟩

end ValueText.Factory
