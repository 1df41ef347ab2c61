/-
  ValueText.Proofs.Registry.Independence — answers and what was resolved before.

  A constructor is only run when it wins, and one that fails is set aside from then on.
  So what was resolved before decides which failing constructors still take part in a
  resolution.  Until it is tried, one of them can displace a registration and then give
  way to another one, which is chosen although the first would have kept its place.

  Main results:

    • `sameHistory_run`        the registrations of a run are those of its registering
                               requests alone;
    • `find_eq_of_sameRegistrations`  two factories with the same registrations find the
                               same, unless a failing constructor interferes;
    • `resolve_independent`    the same for two runs that differ in what they resolve.

  The last comes with two such runs that are answered differently, and with two that are
  although no constructor fails, because a type was declared twice.
-/
import ValueText.Proofs.Registry.Unfailing
import ValueText.Proofs.Registry.Succession

namespace ValueText.Factory

open Descriptor (Family Plain)
open Preference (champion)

variable {ε σ : Type} {K : Descriptor → Prop} {f f' : Factory ε σ} {X : Descriptor}

/-! ## §1. Registrations and what is set aside. -/

/-- The registrations for a type and its supertypes in the order in which they were made, whether
their constructors were set aside or not. -/
def applicable (f : Factory ε σ) (X : Descriptor) : List (Candidate ε) :=
  ({ f with failed := [] } : Factory ε σ).candidates X

/-- Whether the constructor of a registration was set aside. -/
def isSetAside (f : Factory ε σ) (x : Candidate ε) : Bool :=
  match x.supply with
  | .ready _ => false
  | .toBuild g _ => f.failed.contains (g, x.claim.target.key)

/-- The constructor of the registration fails. -/
def fails (f : Factory ε σ) (x : Candidate ε) : Bool := (f.supplied? x.claim).isNone

theorem candidatesAt_filter (f : Factory ε σ) (d : Descriptor) : f.candidatesAt d =
    (({ f with failed := [] } : Factory ε σ).candidatesAt d).filter fun x => !f.isSetAside x := by
  rw [candidatesAt_eq, candidatesAt_eq, List.filter_append]
  congr 1
  · symm
    apply List.filter_eq_self.mpr
    intro x hx
    obtain ⟨i, -, rfl⟩ := mem_instancesAt.mp hx
    rfl
  · unfold genericsAt
    cases d.definition with
    | none => rfl
    | some g =>
        cases hr : f.generics.get? g.key with
        | none => simp [hr]
        | some r =>
            by_cases hmem : (g.key, d.key) ∈ f.failed <;>
              simp [hr, hmem, isSetAside, GenericEntry.candidate]

/-- The candidates are the registrations that are not set aside. -/
theorem candidates_eq_filter (f : Factory ε σ) (X : Descriptor) :
    f.candidates X = (f.applicable X).filter fun x => !f.isSetAside x := by
  unfold applicable candidates
  rw [← StableSort.sort_filter, List.filter_flatMap]
  congr 2
  funext d
  exact f.candidatesAt_filter d

theorem Sound.unset (hf : Sound K f) : Sound K ({ f with failed := [] } : Factory ε σ) :=
  ⟨hf.instance_, hf.numbered, hf.made, nofun, hf.subscribed⟩

/-- A registration whose constructor does not fail is not set aside. -/
theorem isSetAside_eq_false (hK : Family K) (hf : Sound K f) (hX : K X) {x : Candidate ε}
    (hx : x ∈ f.applicable X) (hworks : f.fails x = false) : f.isSetAside x = false := by
  obtain ⟨d, hd, hcandidate⟩ := mem_candidates.mp hx
  cases hcandidate with
  | «instance» => rfl
  | @generic g r hg hr _ =>
      have hr : f.generics.get? g.key = some r := hr
      have hsupplied : f.supplied? ⟨d, true⟩ = (f.attempt r.constructor d).toOption :=
        supplied?_generic hg hr
      have hworks : (f.supplied? ⟨d, true⟩).isNone = false := hworks
      rw [hsupplied] at hworks
      cases hattempt : f.attempt r.constructor d with
      | error err =>
          rw [hattempt] at hworks
          cases hworks
      | ok e =>
          have hnot := hf.not_mem_failed hr (hK.mem_chain hX hd) hattempt
          show f.failed.contains (g.key, d.key) = false
          simpa using hnot

/-! ## §2. Constructors that interfere. -/

/-- A constructor that fails makes `r` lose its place to the less specific `s`: it displaces `r` or
keeps its place before `r`, and gives way to `s` itself. -/
structure Interferes (f : Factory ε σ) (X : Descriptor) (r t s : Candidate ε) : Prop where
  failing : f.supplied? t.claim = none
  working : f.supplied? s.claim ≠ none
  preferred : r.claim.MoreSpecific s.claim
  gives : ¬ t.claim.MoreSpecific s.claim
  takes : ¬ r.claim.MoreSpecific t.claim ∧ [r, t, s].Sublist (f.applicable X) ∨
    t.claim.MoreSpecific r.claim ∧ [t, r, s].Sublist (f.applicable X)

/-- If only interfaces are implemented, it comes between the two and has nothing to do with `r`. -/
theorem Interferes.unrelated (hK : Family K) (hP : Plain K) (hf : Sound K f) (hX : K X)
    {r t s : Candidate ε} (h : Interferes f X r t s) :
    t.claim.Unrelated r.claim ∧ [r, t, s].Sublist (f.applicable X) := by
  obtain ⟨hr, ht, hs⟩ := Preference.mem_of_takes h.takes
  have hknown := known_candidates hK hf.unset hX
  -- What is more specific than `r` is more specific than `s`.
  have hnot : ¬ t.claim.MoreSpecific r.claim :=
    fun htr => h.gives (htr.trans hK hP (hknown t ht) (hknown r hr) (hknown s hs) h.preferred)
  rcases h.takes with ⟨hrt, hsub⟩ | ⟨htr, -⟩
  · exact ⟨⟨hnot, hrt⟩, hsub⟩
  · exact absurd htr hnot

theorem interferes_of_interposed (hK : Family K) (hf : Sound K f) (hX : K X) {r t s : Candidate ε}
    (h : Preference.Interposed Candidate.keeps f.fails (f.applicable X) r t s) :
    Interferes f X r t s := by
  have hkeeps {a b : Candidate ε} (ha : a ∈ f.applicable X) (hb : b ∈ f.applicable X) :=
    keeps_iff_moreSpecific hK hf.unset hX ha hb
  obtain ⟨hr, ht, hs⟩ := Preference.mem_of_takes h.takes
  have hnot {a b : Candidate ε} (ha : a ∈ f.applicable X) (hb : b ∈ f.applicable X)
      (hab : Candidate.keeps a b = false) : ¬ a.claim.MoreSpecific b.claim := by
    intro hlt
    rw [(hkeeps ha hb).mpr hlt] at hab
    cases hab
  refine ⟨Option.isNone_iff_eq_none.mp h.failing, ?_, (hkeeps hr hs).mp h.kept, hnot ht hs h.gives,
    ?_⟩
  · intro hnone
    have hworking : (f.supplied? s.claim).isNone = false := h.working
    rw [hnone] at hworking
    cases hworking
  · exact h.takes.imp (fun h => ⟨hnot hr ht h.1, h.2⟩) fun h => ⟨(hkeeps ht hr).mp h.1, h.2⟩

/-! ## §3. What is found. -/

/-- The registration that is preferred among those whose constructors do not fail. -/
def settled? (f : Factory ε σ) (X : Descriptor) : Option Claim :=
  (champion Candidate.keeps ((f.applicable X).filter fun x => !f.fails x)).map (·.claim)

/-- **A look-up finds what is preferred among those that do not fail**, unless one that fails
interferes. -/
theorem source_find (hK : Family K) (hf : Sound K f) (hX : K X)
    (hnone : ∀ r t s, ¬ Interferes f X r t s) :
    (f.find X).1.bind (·.source) = f.settled? X := by
  have hout := answers_find hK hf hX
  generalize f.find X = out at hout
  obtain ⟨found, f₁, ns⟩ := out
  obtain ⟨hf₁, hworked, hfound, hmissing, -⟩ := hout
  dsimp only at hf₁ hworked hfound hmissing ⊢
  have happlicable : f₁.applicable X = f.applicable X :=
    candidates_congr hworked.instances hworked.generics fun _ _ _ _ => Iff.rfl
  have hfails : f₁.fails = f.fails := by
    funext x
    unfold fails
    rw [hworked.supplied?]
  -- The winner is found among the registrations that are left.
  have hleft : f₁.candidates X = (f.applicable X).filter fun x => !f₁.isSetAside x := by
    rw [candidates_eq_filter, happlicable]
  have hleader : f₁.leader? X =
      (champion Candidate.keeps ((f.applicable X).filter fun x => !f₁.isSetAside x)).map
        (·.claim) := by
    rw [leader?_eq, winner?_eq_champion, hleft]
  have hsource : found.bind (·.source) = f₁.leader? X := by
    cases found with
    | none => exact (hmissing rfl).symm
    | some r => exact (hfound r rfl).1.source
  rw [hsource, hleader]
  unfold settled?
  refine congrArg _ (Preference.champion_leaving (fun x hx hworks => ?_)
    (fun r t s h => hnone r t s (interferes_of_interposed hK hf hX h)) fun x hx => ?_)
  · rw [← happlicable] at hx
    rw [← hfails] at hworks
    rw [isSetAside_eq_false hK hf₁ hX hx hworks]
    rfl
  · rw [hx] at hleader
    cases found with
    | none =>
        rw [hmissing rfl] at hleader
        cases hleader
    | some r =>
        obtain ⟨hsync, -⟩ := hfound r rfl
        have hextension := hsync.extension x.claim (hsync.source.trans hleader)
        rw [hworked.supplied?] at hextension
        unfold fails
        rw [hextension]
        rfl

/-- **Factories with the same registrations find the same.** -/
theorem find_eq_of_sameRegistrations (hK : Family K) (hf : Sound K f) (hf' : Sound K f')
    (hX : K X) (h : SameRegistrations f f') (hnone : ∀ r t s, ¬ Interferes f X r t s) :
    (f'.find X).1 = (f.find X).1 := by
  have happlicable : f'.applicable X = f.applicable X :=
    candidates_congr h.instances h.generics fun _ _ _ _ => Iff.rfl
  have hsupplied : f'.supplied? = f.supplied? := funext h.supplied?
  have hnone' : ∀ r t s, ¬ Interferes f' X r t s := by
    rintro r t s ⟨h₁, h₂, h₃, h₄, h₅⟩
    rw [hsupplied] at h₁ h₂
    rw [happlicable] at h₅
    exact hnone r t s ⟨h₁, h₂, h₃, h₄, h₅⟩
  have hsettled : f'.settled? X = f.settled? X := by
    unfold settled? fails
    rw [happlicable, hsupplied]
  have hsource := (source_find hK hf' hX hnone').trans
    (hsettled.trans (source_find hK hf hX hnone).symm)
  -- The extension is what the registration supplies.
  have hextension {g : Factory ε σ} (hg : Sound K g) {r : Resolved ε} (hr : (g.find X).1 = some r) :
      ∃ c, r.source = some c ∧ g.supplied? c = some r.extension := by
    have hout := answers_find hK hg hX
    obtain ⟨hsync, hne⟩ := hout.found r hr
    obtain ⟨c, hc⟩ := Option.ne_none_iff_exists'.mp hne
    exact ⟨c, hc, by rw [← hout.worked.supplied?]; exact hsync.extension c hc⟩
  cases hr : (f.find X).1 with
  | none =>
      cases hr' : (f'.find X).1 with
      | none => rfl
      | some r' =>
          obtain ⟨c, hc, -⟩ := hextension hf' hr'
          rw [hr, hr'] at hsource
          cases hc.symm.trans hsource
  | some r =>
      obtain ⟨c, hc, he⟩ := hextension hf hr
      cases hr' : (f'.find X).1 with
      | none =>
          rw [hr, hr'] at hsource
          cases hc.symm.trans hsource.symm
      | some r' =>
          obtain ⟨c', hc', he'⟩ := hextension hf' hr'
          rw [hr, hr'] at hsource
          have hcc : c' = c := Option.some.inj (hc'.symm.trans (hsource.trans hc))
          rw [hsupplied, hcc, he] at he'
          obtain ⟨extension, source⟩ := r
          obtain ⟨extension', source'⟩ := r'
          cases hc
          cases hc'
          cases he'
          rw [hcc]

/-! ## §4. Runs. -/

/-- Whether a request changes the registrations. -/
def Request.registers : Request ε σ → Bool
  | .resolve .. => false
  | _ => true

/-- Both factories have the same registrations, and go on with the same number. -/
structure SameHistory (f f' : Factory ε σ) : Prop extends SameRegistrations f f' where
  lastSequence : f'.lastSequence = f.lastSequence

theorem sameHistory_resolve (hK : Family K) (hf : Sound K f) (hX : K X) (s? : Option σ)
    (fallback : Descriptor → ε) : SameHistory f (f.resolve X s? fallback).2.1 := by
  refine ⟨f.sameRegistrations_resolve X s? fallback, ?_⟩
  obtain ⟨r, f₁, ns, -, -, hworked, -, heq⟩ := inSync_resolve hK hf hX s? fallback
  have hlast : f₁.lastSequence = f.lastSequence := by rw [hworked.eq]
  rw [heq]
  cases s? <;> exact hlast

namespace SameHistory

theorem trans {f₁ f₂ f₃ : Factory ε σ} (h : SameHistory f₁ f₂) (h' : SameHistory f₂ f₃) :
    SameHistory f₁ f₃ :=
  ⟨h.toSameRegistrations.trans h'.toSameRegistrations, h'.lastSequence.trans h.lastSequence⟩

theorem symm (h : SameHistory f f') : SameHistory f' f :=
  ⟨h.toSameRegistrations.symm, h.lastSequence.symm⟩

theorem registerInstance [Extension ε] (h : SameHistory f f') (target : Descriptor) (e : ε) :
    SameHistory (f.step (.registerInstance target e)).1 (f'.step (.registerInstance target e)).1 := by
  unfold Factory.step Factory.registerInstance
  dsimp only
  cases checkInstance target e with
  | error err => exact h
  | ok u =>
      refine ⟨⟨?_, h.generics, h.role⟩, ?_⟩
      · show f'.instances.set target.key ⟨target, e, f'.lastSequence + 1⟩ =
          f.instances.set target.key ⟨target, e, f.lastSequence + 1⟩
        rw [h.instances, h.lastSequence]
      · show f'.lastSequence + 1 = f.lastSequence + 1
        rw [h.lastSequence]

/-- The visits of a registration leave the registrations as they are. -/
theorem of_visits (hK : Family K) (hf : Sound K f) {definition : Descriptor} {c : Constructor ε}
    {f₁ : Factory ε σ} {ns : List (Notice ε σ)} (hok : f.registerGeneric definition c = .ok (f₁, ns)) :
    SameHistory (f.withConstructor definition c) f₁ := by
  obtain ⟨-, f₂, heq, hvisit⟩ := registerGeneric_eq_ok hok
  have hworked : Worked (· = definition.key) (f.withConstructor definition c) f₂ := by
    have hleft := (worked_visit hK hf definition c hf.subscribed).2
    rwa [hvisit] at hleft
  have hlast := congrArg (·.lastSequence) hworked.eq
  rw [heq]
  exact ⟨⟨hworked.instances, hworked.generics, hworked.role⟩, hlast⟩

theorem registerGeneric [Extension ε] (hK : Family K) (hf : Sound K f) (hf' : Sound K f') (h : SameHistory f f')
    (definition : Descriptor) (c : Constructor ε) :
    SameHistory (f.step (.registerGeneric definition c)).1
      (f'.step (.registerGeneric definition c)).1 := by
  have hcheck : f'.checkGeneric definition c = f.checkGeneric definition c := by
    unfold checkGeneric
    rw [h.role]
  have hwith : SameHistory (f.withConstructor definition c) (f'.withConstructor definition c) := by
    refine ⟨⟨h.instances, ?_, h.role⟩, ?_⟩
    · show f'.generics.set definition.key ⟨definition, c, f'.lastSequence + 1⟩ =
        f.generics.set definition.key ⟨definition, c, f.lastSequence + 1⟩
      rw [h.generics, h.lastSequence]
    · show f'.lastSequence + 1 = f.lastSequence + 1
      rw [h.lastSequence]
  unfold Factory.step
  dsimp only
  -- Both registrations are refused, or neither is.
  cases hok : f.checkGeneric definition c with
  | error err =>
      have hleft : f.registerGeneric definition c = .error err := by
        unfold Factory.registerGeneric
        rw [hok]
      have hright : f'.registerGeneric definition c = .error err := by
        unfold Factory.registerGeneric
        rw [hcheck, hok]
      rw [hleft, hright]
      exact h
  | ok u =>
      have hdone {g : Factory ε σ} (hg : g.checkGeneric definition c = .ok u) :
          ∃ out, g.registerGeneric definition c = .ok out := by
        unfold Factory.registerGeneric
        rw [hg]
        exact ⟨_, rfl⟩
      obtain ⟨out, hleft⟩ := hdone hok
      obtain ⟨out', hright⟩ := hdone (hcheck.trans hok)
      rw [hleft, hright]
      exact (of_visits hK hf hleft).symm.trans (hwith.trans (of_visits hK hf' hright))

/-- A request that registers something does the same to both. -/
theorem step [Extension ε] (hK : Family K) (hf : Sound K f) (hf' : Sound K f') (h : SameHistory f f')
    {q : Request ε σ} (hq : q.registers = true) : SameHistory (f.step q).1 (f'.step q).1 := by
  cases q with
  | registerInstance target e => exact h.registerInstance target e
  | registerGeneric definition c => exact h.registerGeneric hK hf hf' definition c
  | clear => exact ⟨⟨rfl, rfl, h.role⟩, h.lastSequence⟩
  | resolve => cases hq

end SameHistory

section

variable [Extension ε]

/-- **The registrations of a run are those of its registering requests alone.** -/
theorem sameHistory_run (hK : Family K) (qs : List (Request ε σ)) : ∀ {f f' : Factory ε σ},
    Sound K f → Sound K f' → SameHistory f f' → (∀ q ∈ qs, q.Within K) →
    SameHistory (f.run (qs.filter Request.registers)).1 (f'.run qs).1 := by
  induction qs with
  | nil => intro f f' _ _ h _; exact h
  | cons q qs ih =>
      intro f f' hf hf' h hqs
      have hq := hqs q List.mem_cons_self
      have hrest : ∀ q' ∈ qs, q'.Within K := fun q' hq' => hqs q' (List.mem_cons_of_mem _ hq')
      rw [run_cons]
      cases hregisters : q.registers with
      | true =>
          rw [List.filter_cons_of_pos hregisters, run_cons]
          exact ih (hf.step hK hq) (hf'.step hK hq) (h.step hK hf hf' hregisters) hrest
      | false =>
          rw [List.filter_cons_of_neg (by rw [hregisters]; decide)]
          cases q with
          | resolve Y s? fallback =>
              exact ih hf (hf'.step hK hq)
                (h.trans (sameHistory_resolve hK hf' hq s? fallback)) hrest
          | registerInstance => cases hregisters
          | registerGeneric => cases hregisters
          | clear => cases hregisters

/-- **What was resolved before does not matter for the answer**, unless a constructor that fails
interferes.  The types may be of any family, in which no two have the same key. -/
theorem resolve_independent (hK : Family K) (role : Option Descriptor) (reports : Bool)
    {qs qs' : List (Request ε σ)} (hqs : ∀ q ∈ qs, q.Within K) (hqs' : ∀ q ∈ qs', q.Within K)
    (hsame : qs.filter Request.registers = qs'.filter Request.registers) (hX : K X)
    (s? s?' : Option σ) (fallback : Descriptor → ε)
    (hdiffer : (((new role reports).run qs).1.resolve X s? fallback).1 ≠
      (((new role reports).run qs').1.resolve X s?' fallback).1) :
    ∃ r t s, Interferes ((new role reports).run qs).1 X r t s ∧
      (Plain K → t.claim.Unrelated r.claim ∧
        [r, t, s].Sublist (((new role reports).run qs).1.applicable X)) := by
  have hnew : Sound K (new role reports : Factory ε σ) := sound_new role reports
  have hf := hnew.run hK qs hqs
  have hf' := hnew.run hK qs' hqs'
  have hself : SameHistory (new role reports : Factory ε σ) (new role reports) := ⟨.refl _, rfl⟩
  have hhistory : SameHistory ((new role reports).run qs).1 ((new role reports).run qs').1 := by
    have hright := sameHistory_run hK qs' hnew hnew hself hqs'
    rw [← hsame] at hright
    exact (sameHistory_run hK qs hnew hnew hself hqs).symm.trans hright
  by_contra hnone
  apply hdiffer
  rw [resolve_eq_find, resolve_eq_find]
  have hfind := find_eq_of_sameRegistrations hK hf hf' hX hhistory.toSameRegistrations
    fun r t s h => hnone ⟨r, t, s, h, fun hP => h.unrelated hK hP hf hX⟩
  rw [hfind]

end

/-! ## §5. A box in front of a player. -/

/-- A definition of boxes. -/
def boxDefinition : Descriptor :=
  ((Catalog.new Catalog.shortPaths).genericDefinition none "Box" 1).1

/-- A sprite is a drawable; a player is a box of integers and a sprite. -/
def boxes : Catalog :=
  let c := ((Catalog.new Catalog.shortPaths).declareInterface (.other "Drawable") []).2
  let c := (c.declareInterface (.other "Sprite") [.implements (.other "Drawable")]).2
  let c := (c.declare (.other "IntegerBox")
    [.instanceOf boxDefinition [(c.typeOf (.int .i32)).1]]).2
  (c.declare (.other "Player") [.base (.other "IntegerBox"), .implements (.other "Sprite")]).2

/-- One of the types of `boxes`. -/
def boxed (path : String) : Descriptor := (boxes.typeOf (.other path)).1

/-- Extensions for sprites and for drawables, and between them a constructor for boxes that fails
for boxes of integers. -/
def boxings : List (Request Label Unit) :=
  [.registerInstance (boxed "Sprite") ⟨"sprite", none⟩,
    .registerGeneric boxDefinition (labelling "box" ["Int32"]),
    .registerInstance (boxed "Drawable") ⟨"drawable", none⟩]

/-- The same, and then the box of integers is resolved. -/
def boxingsTried : List (Request Label Unit) :=
  boxings ++ [.resolve (boxed "IntegerBox") none Label.fallback]

theorem orderly_boxes : boxes.Orderly := by
  have hnone {o : Option Descriptor} (h : o.isNone = true) : o = none :=
    Option.isNone_iff_eq_none.mp h
  refine .declare _ _ (.declare _ _ (.declareInterface _ _ (.declareInterface _ _
    (.new _ _) ?_ ?_) ?_ ?_) ?_) ?_
  · exact nofun
  · exact hnone (by decide +kernel)
  · intro clause h
    rw [List.mem_singleton.mp h]
    trivial
  · exact hnone (by decide +kernel)
  · exact hnone (by decide +kernel)
  · exact hnone (by decide +kernel)

theorem implementsInterfaces_boxes : boxes.ImplementsInterfaces :=
  Catalog.implementsInterfaces_of_entries (by decide +kernel)

theorem known_boxed {path : String}
    (h : path ∈ ["Drawable", "Sprite", "IntegerBox", "Player"]) : boxes.Known (boxed path) := by
  have hall : ∀ path ∈ ["Drawable", "Sprite", "IntegerBox", "Player"],
      (boxes.get? (.host (.other path))).isSome = true := by decide +kernel
  exact orderly_boxes.tidy.known_typeOf (hall path h)

theorem within_boxings : ∀ q ∈ boxings, q.Within boxes.Known := by
  intro q hq
  simp only [boxings, List.mem_cons, List.not_mem_nil, or_false] at hq
  rcases hq with rfl | rfl | rfl
  · exact known_boxed (by decide)
  · trivial
  · exact known_boxed (by decide)

theorem within_boxingsTried : ∀ q ∈ boxingsTried, q.Within boxes.Known := by
  intro q hq
  rcases List.mem_append.mp hq with hq | hq
  · exact within_boxings q hq
  · rw [List.mem_singleton.mp hq]
    exact known_boxed (by decide)

theorem player_differs :
    (((new none false).run boxings).1.resolve (boxed "Player") none Label.fallback).1 ≠
      (((new none false).run boxingsTried).1.resolve (boxed "Player") none Label.fallback).1 := by
  intro h
  have htext := congrArg (fun r => r.extension.text) h
  revert htext
  decide +kernel

/-- The constructor for boxes comes between the extensions for sprites and for drawables. -/
theorem resolve_independent_player : ∃ r t s,
    Interferes ((new none false).run boxings).1 (boxed "Player") r t s ∧
    t.claim.Unrelated r.claim ∧
    [r, t, s].Sublist (((new none false).run boxings).1.applicable (boxed "Player")) := by
  obtain ⟨r, t, s, h, hplain⟩ := resolve_independent orderly_boxes.family none false within_boxings
    within_boxingsTried rfl (known_boxed (by decide)) none none Label.fallback player_differs
  exact ⟨r, t, s, h, hplain (orderly_boxes.plain implementsInterfaces_boxes)⟩

/-- A tag that is declared twice, first with integers and then with long ones as its argument. -/
def tag (t : HostType) : Descriptor :=
  ((Catalog.new Catalog.shortPaths).declare (.other "Tag")
    [.instanceOf boxDefinition [((Catalog.new Catalog.shortPaths).typeOf t).1]]).1

/-- A constructor that never fails. -/
def taggings : List (Request Label Unit) := [.registerGeneric boxDefinition (labelling "box" [])]

/-- **The answer depends on what was resolved before**: where a constructor fails, and, if none
does, where a type was declared twice. -/
theorem resolutions_interfere :
    (¬ ∀ (c : Catalog) (qs qs' : List (Request Label Unit)) (X : Descriptor),
      c.Orderly → c.ImplementsInterfaces → (∀ q ∈ qs, q.Within c.Known) →
      (∀ q ∈ qs', q.Within c.Known) →
      qs.filter Request.registers = qs'.filter Request.registers → c.Known X →
      (((new none false).run qs).1.resolve X none Label.fallback).1 =
        (((new none false).run qs').1.resolve X none Label.fallback).1) ∧
    ¬ ∀ (qs qs' : List (Request Label Unit)) (X : Descriptor),
      qs.filter Request.registers = qs'.filter Request.registers →
      (∀ g c, .registerGeneric g c ∈ qs → ∀ d ds, ∃ e, c.build d ds = .ok e) →
      (((new none false).run qs).1.resolve X none Label.fallback).1 =
        (((new none false).run qs').1.resolve X none Label.fallback).1 := by
  constructor
  · intro h
    exact player_differs (h boxes boxings boxingsTried (boxed "Player") orderly_boxes
      implementsInterfaces_boxes within_boxings within_boxingsTried rfl (known_boxed (by decide)))
  · intro h
    -- The first tag is resolved, and what was made for it is then given for the second one.
    have hsame := h taggings
      (taggings ++ [.resolve (tag (.int .i32)) none Label.fallback]) (tag (.int .i64)) rfl
      (by
        intro g c hmem d ds
        cases List.mem_singleton.mp hmem
        unfold labelling Constructor.ofArguments Label.build
        dsimp only
        have hfind : (ds.find? fun a => ([] : List String).contains a.name) = none := by simp
        rw [hfind]
        exact ⟨_, rfl⟩)
    have htext := congrArg (fun r => r.extension.text) hsame
    revert htext
    decide +kernel

end ValueText.Factory
