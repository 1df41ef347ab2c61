/-
  ValueText.Proofs.Registry.Retrying — constructors that fail during a look-up.

  A look-up that meets a failing constructor sets it aside for that closed type and
  starts again.  Nothing counts the tries: the look-up ends because what was set aside
  is no candidate any more.  The failures are kept in one list for all types, but a
  look-up only asks it about the types of its own chain.

  Main results:

    • `looks_find`    the loop without a bound ends, where the bounded one does;
    • `Looks.tried`   it starts again at most once for each constructor of the chain;
    • `isFallback_iff`  when nothing is found;
    • `Looks.same`    failures for types outside of the chain do not matter;
    • `resolve_retrying`  all of this for a factory after any run.
-/
import Mathlib.Data.List.Perm.Subperm
import ValueText.Proofs.Registry.Independence

namespace ValueText.Factory

open Descriptor (Family)

variable {ε σ : Type} {K : Descriptor → Prop} {f f' : Factory ε σ} {X : Descriptor}

theorem eq_ok_of_toOption {φ α : Type} {x : Except φ α} {a : α} (h : x.toOption = some a) :
    x = .ok a := by
  cases x with
  | error err => cases h
  | ok a' =>
      cases h
      rfl

/-! ## §1. The loop. -/

/-- How a look-up goes, without a bound: a winner that is ready is the answer, a constructor that
wins is asked, and after a failure the look-up starts again.  The candidates that failed are listed
in their order. -/
inductive Looks (X : Descriptor) : Factory ε σ → List (Candidate ε) →
    Option (Resolved ε) × Factory ε σ × List (Notice ε σ) → Prop
  | missing {f : Factory ε σ} (hw : f.winner? X = none) : Looks X f [] (none, f, [])
  | ready {f : Factory ε σ} {claim : Claim} {n : Nat} {e : ε}
      (hw : f.winner? X = some ⟨claim, n, .ready e⟩) : Looks X f [] (some ⟨e, some claim⟩, f, [])
  | given {f f₁ : Factory ε σ} {claim : Claim} {n : Nat} {g : TypeKey} {c : Constructor ε} {e : ε}
      {ns : List (Notice ε σ)} (hw : f.winner? X = some ⟨claim, n, .toBuild g c⟩)
      (hout : f.obtain g c claim.target = (some e, f₁, ns)) :
      Looks X f [] (some ⟨e, some claim⟩, f₁, ns)
  | again {f f₁ f₂ : Factory ε σ} {claim : Claim} {n : Nat} {g : TypeKey} {c : Constructor ε}
      {ns ms : List (Notice ε σ)} {tried : List (Candidate ε)} {r : Option (Resolved ε)}
      (hw : f.winner? X = some ⟨claim, n, .toBuild g c⟩)
      (hout : f.obtain g c claim.target = (none, f₁, ns))
      (hrest : Looks X f₁ tried (r, f₂, ms)) :
      Looks X f (⟨claim, n, .toBuild g c⟩ :: tried) (r, f₂, ns ++ ms)

/-- **The loop goes in one way only.** -/
theorem Looks.unique {tried tried' : List (Candidate ε)}
    {out out' : Option (Resolved ε) × Factory ε σ × List (Notice ε σ)} (h : Looks X f tried out)
    (h' : Looks X f tried' out') : tried' = tried ∧ out' = out := by
  -- The winner decides which case it is, and what the constructor gives decides the rest.
  induction h generalizing tried' out' with
  | missing hw =>
      cases h' with
      | missing => exact ⟨rfl, rfl⟩
      | ready hw' => cases hw.symm.trans hw'
      | given hw' => cases hw.symm.trans hw'
      | again hw' => cases hw.symm.trans hw'
  | ready hw =>
      cases h' with
      | missing hw' => cases hw.symm.trans hw'
      | ready hw' =>
          cases hw.symm.trans hw'
          exact ⟨rfl, rfl⟩
      | given hw' => cases hw.symm.trans hw'
      | again hw' => cases hw.symm.trans hw'
  | given hw hout =>
      cases h' with
      | missing hw' => cases hw.symm.trans hw'
      | ready hw' => cases hw.symm.trans hw'
      | given hw' hout' =>
          cases hw.symm.trans hw'
          cases hout.symm.trans hout'
          exact ⟨rfl, rfl⟩
      | again hw' hout' =>
          cases hw.symm.trans hw'
          cases hout.symm.trans hout'
  | again hw hout hrest ih =>
      cases h' with
      | missing hw' => cases hw.symm.trans hw'
      | ready hw' => cases hw.symm.trans hw'
      | given hw' hout' =>
          cases hw.symm.trans hw'
          cases hout.symm.trans hout'
      | again hw' hout' hrest' =>
          cases hw.symm.trans hw'
          cases hout.symm.trans hout'
          obtain ⟨rfl, heq⟩ := ih hrest'
          cases heq
          exact ⟨rfl, rfl⟩

/-- A candidate that is to be built comes from the constructor for the definition of its closed
type, which was not set aside. -/
theorem toBuild_of_mem {x : Candidate ε} (hx : x ∈ f.candidates X) {g : TypeKey}
    {c : Constructor ε} (hs : x.supply = .toBuild g c) : x.claim.target ∈ X.chain ∧
      x.claim.generic = true ∧ ∃ d r, x.claim.target.definition = some d ∧ d.key = g ∧
        f.generics.get? g = some r ∧ r.constructor = c ∧ (g, x.claim.target.key) ∉ f.failed := by
  obtain ⟨d, hd, hcandidate⟩ := mem_candidates.mp hx
  cases hcandidate with
  | «instance» => cases hs
  | @generic g r hg hr hfailed =>
      cases hs
      exact ⟨hd, rfl, g, r, hg, rfl, hr, rfl, hfailed⟩

/-- **With fuel for every constructor that is left to be tried, the loop is what is computed.** -/
theorem looks_lookup (hK : Family K) (hX : K X) (fuel : Nat) : ∀ {f : Factory ε σ}, Sound K f →
    (X.chain.filter f.isOpen).length < fuel → ∃ tried, Looks X f tried (f.lookup fuel X) := by
  induction fuel with
  | zero => intro f _ h; omega
  | succ fuel ih =>
      intro f hf hfuel
      unfold lookup
      split
      · next hw => exact ⟨[], .missing hw⟩
      · next claim n e hw => exact ⟨[], .ready hw⟩
      · next claim n g c hw =>
          obtain ⟨hd, -, definition, r, hdef, rfl, hr, rfl, hfailed⟩ :=
            toBuild_of_mem (winner?_mem hw) rfl
          have hobtained := obtained hK hf hr (hK.mem_chain hX hd)
          split
          · next e f₁ ns hout => exact ⟨[], .given hw hout⟩
          · next f₁ ns hout =>
              -- What was set aside is not tried again, so there is less to try.
              rw [hout] at hobtained
              have hlt := open_lt hobtained.worked hd hdef hfailed (hobtained.failed rfl)
              obtain ⟨tried, hrest⟩ := ih hobtained.sound (by omega)
              exact ⟨_, .again hw hout hrest⟩

/-- **The loop ends**, with what `find` computes. -/
theorem looks_find (hK : Family K) (hf : Sound K f) (hX : K X) :
    ∃ tried, Looks X f tried (f.find X) := by
  apply looks_lookup hK hX _ hf
  have := List.length_filter_le f.isOpen X.chain
  omega

/-! ## §2. What is tried. -/

/-- What is a candidate after some work was one before. -/
theorem Worked.mem_candidates {only : TypeKey → Prop} (h : Worked only f f') {x : Candidate ε}
    (hx : x ∈ f'.candidates X) : x ∈ f.candidates X := by
  obtain ⟨d, hd, hcandidate⟩ := Factory.mem_candidates.mp hx
  refine Factory.mem_candidates.mpr ⟨d, hd, ?_⟩
  cases hcandidate with
  | «instance» hi => exact .instance (by rwa [← h.instances])
  | generic hg hr hfailed =>
      exact .generic hg (by rwa [← h.generics]) fun hmem => hfailed (h.failed _ hmem)

/-- **Each of the candidates that are tried is a constructor that fails**, and none is tried
twice. -/
theorem Looks.tried (hK : Family K) (hX : K X) {tried : List (Candidate ε)}
    {out : Option (Resolved ε) × Factory ε σ × List (Notice ε σ)} (h : Looks X f tried out)
    (hf : Sound K f) : tried.Nodup ∧ ∀ x ∈ tried,
      x ∈ f.candidates X ∧ x.claim.generic = true ∧ f.supplied? x.claim = none := by
  induction h with
  | missing => exact ⟨List.nodup_nil, nofun⟩
  | ready => exact ⟨List.nodup_nil, nofun⟩
  | given => exact ⟨List.nodup_nil, nofun⟩
  | again hw hout _ ih =>
      obtain ⟨hd, hgeneric, definition, r, hdef, rfl, hr, rfl, -⟩ :=
        toBuild_of_mem (winner?_mem hw) rfl
      have hobtained := obtained hK hf hr (hK.mem_chain hX hd)
      rw [hout] at hobtained
      obtain ⟨hnodup, hall⟩ := ih hobtained.sound
      refine ⟨List.nodup_cons.mpr ⟨fun hmem => ?_, hnodup⟩, fun x hx => ?_⟩
      · -- It was set aside, so it is no candidate for what comes later.
        obtain ⟨-, -, _, _, -, -, -, -, hopen⟩ := toBuild_of_mem (hall _ hmem).1 rfl
        exact hopen (hobtained.failed rfl)
      · rcases List.mem_cons.mp hx with rfl | hx
        · refine ⟨winner?_mem hw, hgeneric, ?_⟩
          rw [supplied?_of_mem hf (winner?_mem hw)]
          exact hobtained.value.symm
        · obtain ⟨hmem, hgen, hnone⟩ := hall x hx
          refine ⟨hobtained.worked.mem_candidates hmem, hgen, ?_⟩
          rwa [← hobtained.worked.supplied?]

/-! ## §3. What is found. -/

/-- No extension is registered for a type of the chain, and each constructor that is registered for
the definition of one fails for it. -/
def Unsupplied (f : Factory ε σ) (X : Descriptor) : Prop :=
  (∀ d ∈ X.chain, f.instances.get? d.key = none) ∧
    ∀ d ∈ X.chain, ∀ g r, d.definition = some g → f.generics.get? g.key = some r →
      ∃ err, f.attempt r.constructor d = .error err

/-- **Nothing is found if and only if nothing works.** -/
theorem find_eq_none_iff (hK : Family K) (hf : Sound K f) (hX : K X) :
    (f.find X).1 = none ↔ f.Unsupplied X := by
  have hout := answers_find hK hf hX
  generalize f.find X = out at hout
  obtain ⟨found, f₁, ns⟩ := out
  obtain ⟨hf₁, hworked, hfound, hmissing, -⟩ := hout
  dsimp only at hf₁ hworked hfound hmissing ⊢
  constructor
  · intro hnone
    have hnil : f₁.claims X = [] := Preference.champion_eq_none (hmissing hnone)
    -- No candidates are left, so that what is registered was set aside.
    have hleft {x : Candidate ε} : x ∉ f₁.candidates X := by
      rw [List.map_eq_nil_iff.mp hnil]
      exact List.not_mem_nil
    refine ⟨fun d hd => ?_, fun d hd g r hg hr => ?_⟩
    · rw [← hworked.instances]
      apply Option.eq_none_iff_forall_ne_some.mpr
      intro i hi
      exact hleft (mem_candidates.mpr ⟨d, hd, .instance hi⟩)
    · rw [← hworked.generics] at hr
      have hfailed : (g.key, d.key) ∈ f₁.failed := by
        by_contra hopen
        exact hleft (mem_candidates.mpr ⟨d, hd, .generic hg hr hopen⟩)
      obtain ⟨r', err, hr', herr⟩ := hf₁.failed g.key d (hK.mem_chain hX hd) hfailed
      cases hr.symm.trans hr'
      exact ⟨err, by rw [← hworked.attempt]; exact herr⟩
  · rintro ⟨hinstances, hgenerics⟩
    by_contra hsome
    obtain ⟨r, hr⟩ := Option.ne_none_iff_exists'.mp hsome
    obtain ⟨hsync, hne⟩ := hfound r hr
    obtain ⟨claim, hclaim⟩ := Option.ne_none_iff_exists'.mp hne
    obtain ⟨x, hx, rfl⟩ := leader?_mem (hsync.source.symm.trans hclaim)
    obtain ⟨d, hd, hcandidate⟩ := mem_candidates.mp hx
    cases hcandidate with
    | «instance» hi =>
        rw [hworked.instances, hinstances d hd] at hi
        cases hi
    | @generic g entry hg hentry _ =>
        have hsupplied := hsync.extension _ hclaim
        rw [hworked.supplied?] at hsupplied
        rw [hworked.generics] at hentry
        obtain ⟨err, herr⟩ := hgenerics d hd g entry hg hentry
        have hgiven : f.attempt entry.constructor d = .ok r.extension :=
          eq_ok_of_toOption ((supplied?_generic hg hentry).symm.trans hsupplied)
        cases herr.symm.trans hgiven

/-- What is found is supplied by a registration, and its constructor was not set aside. -/
theorem supplied_of_find (hK : Family K) (hf : Sound K f) (hX : K X) {r : Resolved ε}
    (hr : (f.find X).1 = some r) : ∃ claim, r.source = some claim ∧
      (claim.generic = true → claim.target ∈ X.chain ∧ ∃ g entry,
        claim.target.definition = some g ∧ f.generics.get? g.key = some entry ∧
        f.attempt entry.constructor claim.target = .ok r.extension ∧
        (g.key, claim.target.key) ∉ (f.find X).2.1.failed) := by
  have hout := answers_find hK hf hX
  obtain ⟨hsync, hne⟩ := hout.found r hr
  obtain ⟨claim, hclaim⟩ := Option.ne_none_iff_exists'.mp hne
  refine ⟨claim, hclaim, fun hgeneric => ?_⟩
  obtain ⟨x, hx, rfl⟩ := leader?_mem (hsync.source.symm.trans hclaim)
  obtain ⟨d, hd, hcandidate⟩ := mem_candidates.mp hx
  cases hcandidate with
  | «instance» => cases hgeneric
  | @generic g entry hg hentry hfailed =>
      have hsupplied := hsync.extension _ hclaim
      rw [hout.worked.supplied?] at hsupplied
      rw [hout.worked.generics] at hentry
      have hgiven : f.attempt entry.constructor d = .ok r.extension :=
        eq_ok_of_toOption ((supplied?_generic hg hentry).symm.trans hsupplied)
      exact ⟨hd, g, entry, hg, hentry, hgiven, hfailed⟩

theorem isFallback_resolve (hK : Family K) (hf : Sound K f) (hX : K X) (s? : Option σ)
    (fallback : Descriptor → ε) :
    (f.resolve X s? fallback).1.isFallback = true ↔ (f.find X).1 = none := by
  rw [resolve_eq_find]
  cases hfind : (f.find X).1 with
  | none => exact iff_of_true rfl rfl
  | some r =>
      obtain ⟨claim, hclaim, -⟩ := supplied_of_find hK hf hX hfind
      refine iff_of_false (fun h => ?_) nofun
      have h : r.source.isNone = true := h
      rw [hclaim] at h
      cases h

/-! ## §4. Failures elsewhere. -/

/-- The registrations are the same, and so are the failures for the types of the chain. -/
structure SameFor (X : Descriptor) (f f' : Factory ε σ) : Prop extends SameRegistrations f f' where
  failed : ∀ d ∈ X.chain, ∀ g, (g, d.key) ∈ f'.failed ↔ (g, d.key) ∈ f.failed

/-- Asking a constructor only adds the failure for the closed type that it is asked for. -/
theorem mem_failed_obtain {g : TypeKey} {c : Constructor ε} {d : Descriptor}
    {p : TypeKey × TypeKey} : p ∈ (f.obtain g c d).2.1.failed ↔
      p ∈ f.failed ∨ p = (g, d.key) ∧ (f.obtain g c d).1 = none := by
  unfold obtain
  split
  · simp
  · unfold construct
    dsimp only
    split
    · simp
    · simp [or_comm]

theorem SameFor.winner? (h : SameFor X f f') : f'.winner? X = f.winner? X := by
  unfold Factory.winner?
  rw [candidates_congr h.instances h.generics fun d hd g _ => h.failed d hd g.key]

/-- A constructor gives the same in both, and they stay alike. -/
theorem SameFor.obtain (hK : Family K) (hf : Sound K f) (hf' : Sound K f') (h : SameFor X f f')
    {g : TypeKey} {r : GenericEntry ε} (hr : f.generics.get? g = some r) {d : Descriptor}
    (hd : K d) : (f'.obtain g r.constructor d).1 = (f.obtain g r.constructor d).1 ∧
      SameFor X (f.obtain g r.constructor d).2.1 (f'.obtain g r.constructor d).2.1 := by
  have hleft := obtained hK hf hr hd
  have hright := obtained hK hf' (by rw [h.generics]; exact hr) hd
  have hvalue : (f'.obtain g r.constructor d).1 = (f.obtain g r.constructor d).1 := by
    rw [hright.value, hleft.value, h.attempt]
  refine ⟨hvalue, ⟨?_, ?_, ?_⟩, fun d' hd' g' => ?_⟩
  · rw [hright.worked.instances, hleft.worked.instances, h.instances]
  · rw [hright.worked.generics, hleft.worked.generics, h.generics]
  · rw [hright.worked.role, hleft.worked.role, h.role]
  · rw [mem_failed_obtain, mem_failed_obtain, h.failed d' hd' g', hvalue]

/-- **Failures for types outside of the chain do not matter**: the same constructors are tried, and
the same is found. -/
theorem Looks.same (hK : Family K) (hX : K X) {tried : List (Candidate ε)}
    {out : Option (Resolved ε) × Factory ε σ × List (Notice ε σ)} (h : Looks X f tried out)
    (hf : Sound K f) (hf' : Sound K f') (hsame : SameFor X f f') :
    ∃ out', Looks X f' tried out' ∧ out'.1 = out.1 := by
  induction h generalizing f' with
  | missing hw => exact ⟨_, .missing (hsame.winner?.trans hw), rfl⟩
  | ready hw => exact ⟨_, .ready (hsame.winner?.trans hw), rfl⟩
  | given hw hout =>
      obtain ⟨hd, -, definition, r, hdef, rfl, hr, rfl, -⟩ := toBuild_of_mem (winner?_mem hw) rfl
      obtain ⟨hvalue, -⟩ := hsame.obtain hK hf hf' hr (hK.mem_chain hX hd)
      rw [hout] at hvalue
      dsimp only at hvalue
      exact ⟨_, .given (hsame.winner?.trans hw) (Prod.ext hvalue rfl), rfl⟩
  | again hw hout _ ih =>
      obtain ⟨hd, -, definition, r, hdef, rfl, hr, rfl, -⟩ := toBuild_of_mem (winner?_mem hw) rfl
      have hdK := hK.mem_chain hX hd
      obtain ⟨hvalue, hafter⟩ := hsame.obtain hK hf hf' hr hdK
      have hleft := (obtained hK hf hr hdK).sound
      have hright := (obtained hK hf' (by rw [hsame.generics]; exact hr) hdK).sound
      rw [hout] at hvalue hafter hleft
      dsimp only at hvalue
      obtain ⟨out', hrest, heq⟩ := ih hleft hright hafter
      exact ⟨_, .again (hsame.winner?.trans hw) (Prod.ext hvalue rfl) hrest, heq⟩

theorem SameFor.resolve (hK : Family K) (hf : Sound K f) (hf' : Sound K f') (hX : K X)
    (h : SameFor X f f') (s? s?' : Option σ) (fallback : Descriptor → ε) :
    (f'.resolve X s?' fallback).1 = (f.resolve X s? fallback).1 := by
  obtain ⟨tried, hlooks⟩ := looks_find hK hf hX
  obtain ⟨tried', hlooks'⟩ := looks_find hK hf' hX
  obtain ⟨out, hsame, heq⟩ := hlooks.same hK hX hf hf' h
  obtain ⟨-, hout⟩ := hsame.unique hlooks'
  rw [resolve_eq_find, resolve_eq_find, hout, heq]

/-- The factory without what it knows of failures for one closed type. -/
def forgetting (f : Factory ε σ) (k : TypeKey) : Factory ε σ :=
  { f with failed := f.failed.filter fun p => p.2 ≠ k }

theorem Sound.forgetting (hf : Sound K f) (k : TypeKey) : Sound K (f.forgetting k) :=
  ⟨hf.instance_, hf.numbered, hf.made,
    fun g d hd h => hf.failed g d hd (List.mem_filter.mp h).1, hf.subscribed⟩

theorem sameFor_forgetting {k : TypeKey} (hk : ∀ d ∈ X.chain, d.key ≠ k) :
    SameFor X f (f.forgetting k) := by
  refine ⟨⟨rfl, rfl, rfl⟩, fun d hd g => ?_⟩
  show (g, d.key) ∈ f.failed.filter _ ↔ _
  rw [List.mem_filter]
  simp [hk d hd]

/-- What failed since then did so for types outside of the chain. -/
def FailsElsewhere (X : Descriptor) (f f' : Factory ε σ) : Prop :=
  ∀ p ∈ f'.failed, p ∉ f.failed → ∀ d ∈ X.chain, d.key ≠ p.2

instance : Decidable (FailsElsewhere X f f') :=
  inferInstanceAs (Decidable (∀ p ∈ f'.failed, p ∉ f.failed → ∀ d ∈ X.chain, d.key ≠ p.2))

theorem sameFor_of_failsElsewhere (h : SameRegistrations f f')
    (hkept : ∀ p ∈ f.failed, p ∈ f'.failed) (helse : FailsElsewhere X f f') : SameFor X f f' := by
  refine ⟨h, fun d hd g => ⟨fun hmem => ?_, hkept _⟩⟩
  by_contra hnew
  exact helse _ hmem hnew d hd rfl

/-! ## §5. Resolutions after any run. -/

variable [Extension ε]

/-- **A resolution ends, and rejects only what failed.**  It starts again at most once for each
constructor of the chain.  It falls back if and only if no extension is registered and every
constructor fails.  An answer of a constructor is what the constructor makes.  A failure for a type
outside of the chain, that was or will be met by a resolution or a registration, changes nothing. -/
theorem resolve_retrying {c : Catalog} (hc : c.Orderly) (role : Option Descriptor) (reports : Bool)
    {qs : List (Request ε σ)} (hqs : ∀ q ∈ qs, q.Within c.Known) (hX : c.Known X) (s? : Option σ)
    (fallback : Descriptor → ε) :
    let f := ((new role reports).run qs).1
    let r := (f.resolve X s? fallback).1
    (∃ tried out, (∀ tried' out', Looks X f tried' out' ↔ tried' = tried ∧ out' = out) ∧
      r = out.1.getD ⟨fallback X, none⟩ ∧
      tried.Nodup ∧ tried.Subperm ((f.candidates X).filter (·.claim.generic)) ∧
      ∀ x ∈ tried, f.supplied? x.claim = none) ∧
    (r.isFallback = true ↔ f.Unsupplied X) ∧
    (r.isFallback = true → r.extension = fallback X) ∧
    (∀ claim, r.source = some claim → claim.generic = true → claim.target ∈ X.chain ∧
      ∃ g entry, claim.target.definition = some g ∧ f.generics.get? g.key = some entry ∧
        f.attempt entry.constructor claim.target = .ok r.extension ∧
        (g.key, claim.target.key) ∉ (f.resolve X s? fallback).2.1.failed) ∧
    (∀ k, (∀ d ∈ X.chain, d.key ≠ k) → ((f.forgetting k).resolve X s? fallback).1 = r) ∧
    (∀ Y t? fallback', c.Known Y → FailsElsewhere X f (f.resolve Y t? fallback').2.1 →
      ((f.resolve Y t? fallback').2.1.resolve X s? fallback).1 = r) ∧
    ∀ definition k f' ns, f.registerGeneric definition k = .ok (f', ns) →
      FailsElsewhere X (f.withConstructor definition k) f' →
      (f'.resolve X s? fallback).1 = ((f.withConstructor definition k).resolve X s? fallback).1 := by
  intro f r
  have hK := hc.family
  have hf : Sound c.Known f := (sound_new role reports).run hK qs hqs
  have hr : r = (f.find X).1.getD ⟨fallback X, none⟩ := resolve_eq_find f X s? fallback
  refine ⟨?_, (isFallback_resolve hK hf hX s? fallback).trans (find_eq_none_iff hK hf hX),
    fun h => ?_, fun claim hclaim hgeneric => ?_, fun k hk => ?_, fun Y t? fallback' hY helse => ?_,
    fun definition k f' ns hok helse => ?_⟩
  · obtain ⟨tried, hlooks⟩ := looks_find hK hf hX
    obtain ⟨hnodup, htried⟩ := hlooks.tried hK hX hf
    refine ⟨tried, f.find X, fun tried' out' => ⟨hlooks.unique, ?_⟩, hr, hnodup,
      hnodup.subperm fun x hx => ?_, fun x hx => (htried x hx).2.2⟩
    · rintro ⟨rfl, rfl⟩
      exact hlooks
    · exact List.mem_filter.mpr ⟨(htried x hx).1, (htried x hx).2.1⟩
  · rw [hr, (isFallback_resolve hK hf hX s? fallback).mp h]
    rfl
  · have hfailed : (f.resolve X s? fallback).2.1.failed = (f.find X).2.1.failed := by
      unfold resolve
      cases s? <;> rfl
    cases hfind : (f.find X).1 with
    | none =>
        rw [hr, hfind] at hclaim
        cases hclaim
    | some r' =>
        have hr' : r = r' := by rw [hr, hfind]; rfl
        obtain ⟨claim', hclaim', hsupplied⟩ := supplied_of_find hK hf hX hfind
        rw [hr', hclaim'] at hclaim
        cases hclaim
        rw [hr', hfailed]
        exact hsupplied hgeneric
  · exact (sameFor_forgetting hk).resolve hK hf (hf.forgetting k) hX s? s? fallback
  · have hf' : Sound c.Known (f.resolve Y t? fallback').2.1 :=
      hf.step hK (q := .resolve Y t? fallback') hY
    have hkept : ∀ p ∈ f.failed, p ∈ (f.resolve Y t? fallback').2.1.failed := by
      obtain ⟨r', f₁, ns, -, -, hworked, -, heq⟩ := inSync_resolve hK hf hY t? fallback'
      rw [heq]
      cases t? <;> exact hworked.failed
    exact (sameFor_of_failsElsewhere (f.sameRegistrations_resolve Y t? fallback') hkept
      helse).resolve hK hf hf' hX s? s? fallback
  · have hf' : Sound c.Known f' := by
      have hstep := hf.step hK (q := .registerGeneric definition k) trivial
      unfold Factory.step at hstep
      dsimp only at hstep
      rwa [hok] at hstep
    have hkept : ∀ p ∈ (f.withConstructor definition k).failed, p ∈ f'.failed := by
      obtain ⟨-, f₁, heq, hvisit⟩ := registerGeneric_eq_ok hok
      have hworked := (worked_visit hK hf definition k hf.subscribed).2
      rw [hvisit] at hworked
      rw [heq]
      exact hworked.failed
    exact (sameFor_of_failsElsewhere (SameHistory.of_visits hK hf hok).toSameRegistrations hkept
      helse).resolve hK (hf.withConstructor definition k) hf' hX s? s? fallback

/-- A box of integers has a constructor that fails, and nothing else; a sprite does not hear of
it. -/
theorem resolve_retrying_box :
    let f := ((new none false).run boxings).1
    let box := f.resolve (boxed "IntegerBox") none Label.fallback
    box.1.isFallback = true ∧ box.2.1.failed ≠ [] ∧
      (box.2.1.resolve (boxed "Sprite") none Label.fallback).1 =
        (f.resolve (boxed "Sprite") none Label.fallback).1 := by
  refine ⟨by decide +kernel, by decide +kernel, ?_⟩
  have hknown : boxes.Known (boxed "Sprite") := known_boxed (by decide)
  have hsprite :=
    resolve_retrying orderly_boxes none false within_boxings hknown none Label.fallback
  exact hsprite.2.2.2.2.2.1 (boxed "IntegerBox") none Label.fallback (known_boxed (by decide))
    (by decide +kernel)

end ValueText.Factory
