/-
  ValueText.Proofs.Registry.Unfailing — factories whose constructors do not fail.

  If no constructor fails for the types that a factory is asked for, nothing is ever set
  aside.  The answer for a type then depends on the registrations alone, whatever was
  resolved before, and a subscriber is never left behind.

  Main results:

    • `sameAnswer_of_sameRegistrations`  the answers depend on the registrations alone;
    • `Current.step_unfailing`  every request keeps every subscriber up to date.
-/
import ValueText.Proofs.Registry.Subscriptions

namespace ValueText.Factory

open Descriptor (Family Plain)

variable {ε σ : Type} {K : Descriptor → Prop} {f f' : Factory ε σ} {X : Descriptor}

/-! ## §1. Nothing is set aside. -/

/-- No constructor fails for a type of the family. -/
def Unfailing (K : Descriptor → Prop) (f : Factory ε σ) : Prop :=
  ∀ g entry d, f.generics.get? g.key = some entry → K d → d.definition = some g →
    ∃ e, f.attempt entry.constructor d = .ok e

theorem Unfailing.not_mem_failed (hu : Unfailing K f) (hf : Sound K f) {d g : Descriptor}
    (hd : K d) (hg : d.definition = some g) : (g.key, d.key) ∉ f.failed := by
  intro hmem
  obtain ⟨entry, err, hentry, herr⟩ := hf.failed g.key d hd hmem
  obtain ⟨e, he⟩ := hu g entry d hentry hd hg
  rw [he] at herr
  cases herr

/-! ## §2. The registrations decide. -/

/-- Only the role of a factory shows in the arguments of constructors. -/
theorem argumentsFor_of_role (h : f'.role = f.role) (c : Constructor ε) (d : Descriptor) :
    f'.argumentsFor c d = f.argumentsFor c d := by
  unfold argumentsFor
  rw [h]

theorem attempt_of_role (h : f'.role = f.role) (c : Constructor ε) (d : Descriptor) :
    f'.attempt c d = f.attempt c d := by
  unfold attempt
  rw [argumentsFor_of_role h]

/-- Both factories have the same registrations. -/
structure SameRegistrations (f f' : Factory ε σ) : Prop where
  instances : f'.instances = f.instances
  generics : f'.generics = f.generics
  role : f'.role = f.role

namespace SameRegistrations

theorem refl (f : Factory ε σ) : SameRegistrations f f := ⟨rfl, rfl, rfl⟩

theorem symm (h : SameRegistrations f f') : SameRegistrations f' f :=
  ⟨h.instances.symm, h.generics.symm, h.role.symm⟩

theorem trans {f₁ f₂ f₃ : Factory ε σ} (h : SameRegistrations f₁ f₂)
    (h' : SameRegistrations f₂ f₃) : SameRegistrations f₁ f₃ :=
  ⟨h'.instances.trans h.instances, h'.generics.trans h.generics, h'.role.trans h.role⟩

theorem attempt (h : SameRegistrations f f') (c : Constructor ε) (d : Descriptor) :
    f'.attempt c d = f.attempt c d := attempt_of_role h.role c d

theorem unfailing (h : SameRegistrations f f') (hu : Unfailing K f) : Unfailing K f' := by
  intro g entry d hentry hd hg
  rw [h.generics] at hentry
  rw [h.attempt]
  exact hu g entry d hentry hd hg

theorem supplied? (h : SameRegistrations f f') (c : Claim) : f'.supplied? c = f.supplied? c := by
  unfold Factory.supplied?
  rw [h.instances, h.generics]
  split
  · split
    · rfl
    · split
      · rfl
      · rw [h.attempt]
  · rfl

end SameRegistrations

/-- **The answers depend on the registrations alone.** -/
theorem sameAnswer_of_sameRegistrations (hK : Family K) (hX : K X) (hf : Sound K f)
    (hf' : Sound K f') (hu : Unfailing K f) (h : SameRegistrations f f') : SameAnswer X f f' := by
  have hcandidates : f'.candidates X = f.candidates X := by
    refine candidates_congr h.instances h.generics fun d hd g hg => ?_
    have hdK := hK.mem_chain hX hd
    exact iff_of_false ((h.unfailing hu).not_mem_failed hf' hdK hg) (hu.not_mem_failed hf hdK hg)
  refine ⟨?_, fun c _ => h.supplied? c⟩
  unfold leader? claims
  rw [hcandidates]

/-- Asking a constructor leaves the registrations as they are. -/
theorem sameRegistrations_obtain (f : Factory ε σ) (g : TypeKey) (c : Constructor ε)
    (d : Descriptor) : SameRegistrations f (f.obtain g c d).2.1 := by
  unfold obtain construct
  split
  · exact .refl f
  · dsimp only
    split <;> exact ⟨rfl, rfl, rfl⟩

theorem sameRegistrations_lookup (fuel : Nat) : ∀ (f : Factory ε σ) (X : Descriptor),
    SameRegistrations f (f.lookup fuel X).2.1 := by
  induction fuel with
  | zero => exact fun f X => .refl f
  | succ fuel ih =>
      intro f X
      unfold lookup
      split
      · exact .refl f
      · exact .refl f
      · next claim n definition c _ =>
          have hobtained := f.sameRegistrations_obtain definition c claim.target
          split
          · next e f₁ ns he => rwa [he] at hobtained
          · next f₁ ns he =>
              rw [he] at hobtained
              exact hobtained.trans (ih f₁ X)

/-- **A resolution leaves the registrations as they are.** -/
theorem sameRegistrations_resolve (f : Factory ε σ) (X : Descriptor) (s? : Option σ)
    (fallback : Descriptor → ε) : SameRegistrations f (f.resolve X s? fallback).2.1 := by
  have hfound : SameRegistrations f (f.find X).2.1 := sameRegistrations_lookup _ f X
  unfold resolve
  cases s? <;> exact ⟨hfound.instances, hfound.generics, hfound.role⟩

/-- So do the offers of a constructor. -/
theorem sameRegistrations_offerGeneric (definition : TypeKey) (c : Constructor ε)
    (f : Factory ε σ) (x : Subscription σ) :
    SameRegistrations f (offerGeneric definition c f x).2.1 := by
  have h := offered definition c f x
  generalize offerGeneric definition c f x = out at h
  cases h with
  | none => exact .refl f
  | refused => exact .refl f
  | failed d h f' ns hc hout =>
      have hobtained := f.sameRegistrations_obtain definition c d
      rwa [hout] at hobtained
  | given d h e f' ns hc hout =>
      have hobtained := f.sameRegistrations_obtain definition c d
      rwa [hout] at hobtained

/-- What is resolved is in sync with the registrations that there were before. -/
theorem inSync_resolve_unfailing (hK : Family K) (hf : Sound K f) (hu : Unfailing K f) (hX : K X)
    (s? : Option σ) (fallback : Descriptor → ε) :
    InSync f X (f.resolve X s? fallback).1 := by
  obtain ⟨r, f₁, ns, hsync, hf₁, hworked, -, heq⟩ := inSync_resolve hK hf hX s? fallback
  have hsame : SameRegistrations f f₁ := ⟨hworked.instances, hworked.generics, hworked.role⟩
  rw [heq]
  cases s? <;>
    exact hsync.same (sameAnswer_of_sameRegistrations hK hX hf₁ hf (hsame.unfailing hu) hsame.symm)

/-- Two answers that are in sync come from the same registration, with the same extension. -/
theorem InSync.unique {r r' : Resolved ε} (h : InSync f X r) (h' : InSync f X r') :
    r.source = r'.source ∧ ∀ c, r.source = some c → r.extension = r'.extension := by
  have hsource := h.source.trans h'.source.symm
  refine ⟨hsource, fun c hc => Option.some.inj ?_⟩
  rw [← h.extension c hc, ← h'.extension c (hsource.symm.trans hc)]

/-! ## §3. Requests. -/

/-- If the request registers a constructor, that does not fail for a type of the family. -/
def Request.Unfailing (K : Descriptor → Prop) (f : Factory ε σ) : Request ε σ → Prop
  | .registerGeneric definition c => ∀ g d, g.key = definition.key → K d → d.definition = some g →
      ∃ e, f.attempt c d = .ok e
  | _ => True

theorem Unfailing.withConstructor (hu : Unfailing K f) {definition : Descriptor}
    {c : Constructor ε} (hc : (Request.registerGeneric definition c : Request ε σ).Unfailing K f) :
    Unfailing K (f.withConstructor definition c) := by
  intro g entry d hentry hd hg
  rw [generics_withConstructor] at hentry
  split at hentry
  · next hkey =>
      cases hentry
      exact hc g d hkey.symm hd hg
  · exact hu g entry d hentry hd hg

variable [Extension ε]

/-- **Constructors go on not to fail.** -/
theorem Unfailing.step (hK : Family K) (hf : Sound K f) (hu : Unfailing K f) {q : Request ε σ}
    (hq : q.Within K) (hc : q.Unfailing K f) : Unfailing K (f.step q).1 := by
  cases q with
  | registerInstance target e =>
      unfold Factory.step
      dsimp only
      split
      · next out hok =>
          obtain ⟨heq, -⟩ := registerInstance_eq_ok hok
          rw [heq]
          exact hu
      · exact hu
  | registerGeneric definition c =>
      unfold Factory.step
      dsimp only
      split
      · next out hok =>
          obtain ⟨-, f₁, heq, hvisit⟩ := registerGeneric_eq_ok hok
          have hworked := (worked_visit hK hf definition c hf.subscribed).2
          rw [hvisit] at hworked
          have hsame : SameRegistrations (f.withConstructor definition c) f₁ :=
            ⟨hworked.instances, hworked.generics, hworked.role⟩
          rw [heq]
          exact hsame.unfailing (hu.withConstructor hc)
      · exact hu
  | clear => exact nofun
  | resolve X s? fallback => exact (f.sameRegistrations_resolve X s? fallback).unfailing hu

variable [DecidableEq σ] {r : Resolved ε} {s : σ}

/-- **Every request keeps a subscriber up to date.** -/
theorem Current.step_unfailing (hK : Family K) (hP : Plain K) (hX : K X) (hf : Sound K f)
    (h : Current f X s r) {q : Request ε σ} (hq : q.Within K) (hs : q.subscriber? ≠ some s)
    (hclear : q ≠ .clear) (hu : Unfailing K f) (hc : q.Unfailing K f) :
    Updated (f.step q).1 X s r (f.step q).2 := by
  have hf' := hf.step hK hq
  have hu' := hu.step hK hf hq hc
  refine (h.step hK hP hX hf hq hs hclear).mpr ?_
  cases q with
  | registerInstance target e => trivial
  | registerGeneric definition c =>
      intro _ d hclosed hmem
      obtain ⟨hd, g, hg, hkey⟩ := closedIn?_mem hclosed
      rw [← hkey] at hmem
      exact absurd hmem (hu'.not_mem_failed hf' (hK.mem_chain hX hd) hg)
  | clear => trivial
  | resolve Y s? fallback =>
      exact sameAnswer_of_sameRegistrations hK hX hf hf' hu
        (f.sameRegistrations_resolve Y s? fallback)

end ValueText.Factory
