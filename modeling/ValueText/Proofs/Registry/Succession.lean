/-
  ValueText.Proofs.Registry.Succession — answers before and after a registration.

  The registration of an extension may replace an old one, and it comes last.  All that
  the old one used to suppress could then come to the front.  It does not: the answer for
  a type stays, or it is the new registration.

  Main results:

    • `lookup_withExtension`  a look-up after the registration goes as one before it, with
                              the same constructors set aside, unless it ends with the new
                              registration;
    • `resolve_succession`    the answers before and after, and when they differ.
-/
import ValueText.Proofs.Registry.Subscriptions
import ValueText.Proofs.Registry.Precedence

namespace ValueText.Factory

open Descriptor (Family Plain)

variable {ε σ : Type} {K : Descriptor → Prop} {f : Factory ε σ} {X target : Descriptor} {e : ε}

/-! ## §1. Looking up with one more extension. -/

/-- Where a candidate with a claim other than the target's gets its extension from. -/
theorem isCandidateAt_of_withExtension {d : Descriptor} {x : Candidate ε}
    (hx : IsCandidateAt (f.withExtension target e) d x) :
    IsCandidateAt f d x ∨ x = ⟨⟨target, false⟩, f.lastSequence + 1, .ready e⟩ := by
  cases hx with
  | @«instance» i hi =>
      have hi : (f.instances.set target.key ⟨target, e, f.lastSequence + 1⟩).get? d.key = some i :=
        hi
      rw [Table.get?_set] at hi
      split at hi
      · cases hi
        exact .inr rfl
      · exact .inl (.instance hi)
  | generic hg hr hfailed => exact .inl (.generic hg hr hfailed)

/-- Two candidates with one claim are one candidate. -/
theorem candidate_unique (hf : Sound K f) {d d' : Descriptor} {x y : Candidate ε}
    (hx : IsCandidateAt f d x) (hy : IsCandidateAt f d' y) (h : x.claim = y.claim) : x = y := by
  cases hx with
  | @«instance» i hi =>
      cases hy with
      | @«instance» j hj =>
          have htarget : i.target = j.target := congrArg Claim.target h
          rw [← (hf.instance_ _ _ hi).1, htarget, (hf.instance_ _ _ hj).1, hj] at hi
          cases hi
          rfl
      | generic => cases congrArg Claim.generic h
  | @generic g r hg hr _ =>
      cases hy with
      | «instance» => cases congrArg Claim.generic h
      | @generic g' r' hg' hr' _ =>
          cases (congrArg Claim.target h : d = d')
          rw [hg] at hg'
          cases hg'
          rw [hr] at hr'
          cases hr'
          rfl

theorem isCandidateAt_winner {x : Candidate ε} (h : f.winner? X = some x) :
    ∃ d ∈ X.chain, IsCandidateAt f d x :=
  mem_candidates.mp (winner?_mem h)

/-- **The winner stays, or it is the new registration.** -/
theorem winner?_withExtension (hK : Family K) (hP : Plain K) (hX : K X) (hf : Sound K f)
    (ht : K target) (e : ε) : (f.withExtension target e).winner? X = f.winner? X ∨
      (f.withExtension target e).winner? X =
        some ⟨⟨target, false⟩, f.lastSequence + 1, .ready e⟩ := by
  have hf' := hf.withExtension ht e
  cases happlies : target.isAssignableFrom X with
  | false =>
      left
      unfold winner?
      rw [candidates_untouched hf hf' (replaced_withExtension hf ht e) fun x hx =>
        ⟨not_mem_of_not_isAssignableFrom hf happlies hx,
          not_mem_of_not_isAssignableFrom hf' happlies hx⟩]
  | true =>
      have hleader := leader?_registered hK hP hX hf hf'
        (registered_withExtension hK hX hf ht e happlies)
      rw [leader?_eq, leader?_eq, Claim.challenge_eq] at hleader
      split at hleader
      · obtain ⟨x, hx, hclaim⟩ := Option.map_eq_some_iff.mp hleader
        obtain ⟨d, -, hcandidate⟩ := isCandidateAt_winner hx
        have hnew : IsCandidateAt (f.withExtension target e) target
            ⟨⟨target, false⟩, f.lastSequence + 1, .ready e⟩ :=
          .instance (i := ⟨target, e, _⟩) (by
            show (f.instances.set target.key _).get? target.key = _
            rw [Table.get?_set, if_pos rfl])
        rw [hx, candidate_unique hf' hcandidate hnew hclaim]
        exact .inr rfl
      · cases hx : (f.withExtension target e).winner? X with
        | none =>
            rw [hx] at hleader
            exact .inl (Option.map_eq_none_iff.mp hleader.symm).symm
        | some x =>
            rw [hx] at hleader
            obtain ⟨y, hy, hclaim⟩ := Option.map_eq_some_iff.mp hleader.symm
            obtain ⟨d, -, hcandidate⟩ := isCandidateAt_winner hx
            obtain ⟨d', -, hcandidate'⟩ := isCandidateAt_winner hy
            rcases isCandidateAt_of_withExtension hcandidate with hcandidate | rfl
            · rw [hy, candidate_unique hf hcandidate hcandidate' hclaim.symm]
              exact .inl rfl
            · exact .inr rfl

/-- A constructor that is asked makes the same, and leaves the same behind. -/
theorem obtain_withExtension (f : Factory ε σ) (target : Descriptor) (e : ε) (g : TypeKey)
    (c : Constructor ε) (d : Descriptor) : (f.withExtension target e).obtain g c d =
      ((f.obtain g c d).1, (f.obtain g c d).2.1.withExtension target e, (f.obtain g c d).2.2) := by
  unfold obtain construct
  have hmade : (f.withExtension target e).made = f.made := rfl
  have harguments : (f.withExtension target e).argumentsFor c d = f.argumentsFor c d := rfl
  rw [hmade, harguments]
  split
  · rfl
  · dsimp only
    split <;> rfl

/-- **A look-up after the registration goes as one before it**, unless it ends with the new
registration. -/
theorem lookup_withExtension (hK : Family K) (hP : Plain K) (hX : K X) (ht : K target) (e : ε)
    (fuel : Nat) : ∀ {f : Factory ε σ}, Sound K f →
    ((f.withExtension target e).lookup fuel X).1 = (f.lookup fuel X).1 ∨
      ((f.withExtension target e).lookup fuel X).1 = some ⟨e, some ⟨target, false⟩⟩ := by
  -- Induction on the fuel; until the new registration wins, the same constructors fail.
  induction fuel with
  | zero => intro f _; exact .inl rfl
  | succ fuel ih =>
      intro f hf
      rcases winner?_withExtension hK hP hX hf ht e with hsame | hnew
      · unfold lookup
        rw [hsame]
        cases hw : f.winner? X with
        | none => exact .inl rfl
        | some x =>
            obtain ⟨claim, n, supply⟩ := x
            cases supply with
            | ready e' => exact .inl rfl
            | toBuild g c =>
                obtain ⟨d, hd, hcandidate⟩ := isCandidateAt_winner hw
                cases hcandidate with
                | @generic g r hg hr _ =>
                    have hleft := (obtained hK hf hr (hK.mem_chain hX hd)).sound
                    dsimp only
                    rw [obtain_withExtension]
                    generalize f.obtain g.key r.constructor d = out at hleft
                    obtain ⟨value, f₁, ns⟩ := out
                    cases value with
                    | some e' => exact .inl rfl
                    | none => exact ih hleft
      · right
        unfold lookup
        rw [hnew]

/-! ## §2. Answers. -/

/-- Who subscribes does not matter for the answer. -/
theorem resolve_eq_find (f : Factory ε σ) (X : Descriptor) (s? : Option σ)
    (fallback : Descriptor → ε) :
    (f.resolve X s? fallback).1 = (f.find X).1.getD ⟨fallback X, none⟩ := by
  unfold resolve
  generalize f.find X = out
  obtain ⟨found, f₁, ns⟩ := out
  cases found <;> cases s? <;> rfl

theorem lookup_withSubscriptions (t : Table TypeKey (List (Subscription σ))) (X : Descriptor)
    (fuel : Nat) : ∀ f : Factory ε σ,
    (({ f with subscriptions := t } : Factory ε σ).lookup fuel X).1 = (f.lookup fuel X).1 := by
  induction fuel with
  | zero => intro f; rfl
  | succ fuel ih =>
      intro f
      have hobtain (g : TypeKey) (c : Constructor ε) (d : Descriptor) :
          ({ f with subscriptions := t } : Factory ε σ).obtain g c d =
            ((f.obtain g c d).1, { (f.obtain g c d).2.1 with subscriptions := t },
              (f.obtain g c d).2.2) := by
        unfold obtain construct
        have hmade : ({ f with subscriptions := t } : Factory ε σ).made = f.made := rfl
        have harguments : ({ f with subscriptions := t } : Factory ε σ).argumentsFor c d =
          f.argumentsFor c d := rfl
        rw [hmade, harguments]
        split
        · rfl
        · dsimp only
          split <;> rfl
      unfold lookup
      have hwinner : ({ f with subscriptions := t } : Factory ε σ).winner? X = f.winner? X := rfl
      rw [hwinner]
      split
      · rfl
      · rfl
      · next claim n g c _ =>
          rw [hobtain]
          generalize f.obtain g c claim.target = out
          obtain ⟨value, f₁, ns⟩ := out
          cases value with
          | some e => rfl
          | none => exact ih f₁

/-- What is in sync with a factory, and falls back to what `fallback` makes, is its answer. -/
theorem resolve_eq_of_inSync (hK : Family K) (hf : Sound K f) (hX : K X) {r : Resolved ε}
    (hr : InSync f X r) {fallback : Descriptor → ε} (hnone : r.source = none → r.extension = fallback X)
    (s? : Option σ) : (f.resolve X s? fallback).1 = r := by
  rw [resolve_eq_find, ← resolve_eq_find f X none, resolve_of_inSync hK hf hX hr]
  obtain ⟨extension, source⟩ := r
  cases source with
  | none =>
      show (⟨fallback X, none⟩ : Resolved ε) = ⟨extension, none⟩
      rw [← hnone rfl]
  | some c => rfl

/-- An answer without a registration is what is fallen back to. -/
theorem extension_of_fallback (hK : Family K) (hf : Sound K f) (hX : K X) (s? : Option σ)
    (fallback : Descriptor → ε) (h : (f.resolve X s? fallback).1.source = none) :
    (f.resolve X s? fallback).1.extension = fallback X := by
  have hfound := (answers_find hK hf hX).found
  rw [resolve_eq_find] at h ⊢
  cases hout : (f.find X).1 with
  | none => rfl
  | some r =>
      rw [hout] at h
      exact absurd h (hfound r hout).2

/-- A registration that is the answer applies to the type. -/
theorem isAssignableFrom_of_inSync (hf : Sound K f) {r : Resolved ε} (hr : InSync f X r)
    (h : r.source = some ⟨target, false⟩) : target.isAssignableFrom X = true := by
  obtain ⟨x, hx, hclaim⟩ := leader?_mem (hr.source.symm.trans h)
  have hplace : x.place = .inl target.key := by
    have hplace := claimPlace?_of_mem hx
    rw [hclaim] at hplace
    exact (Option.some.inj hplace).symm
  cases happlies : target.isAssignableFrom X with
  | true => rfl
  | false => exact absurd hx (not_mem_of_not_isAssignableFrom hf happlies hplace)

variable [Extension ε]

/-- **The registration of an extension changes answers only towards itself.**  After it a type has
the answer that it had before, or the new registration; and that if and only if it applies to the
type and overrides the answer before.  Where the type was not resolved before, so that constructors
that fail may still be there to be tried, the answer is no third one either. -/
theorem resolve_succession {c : Catalog} (hc : c.Orderly) (hi : c.ImplementsInterfaces)
    (role : Option Descriptor) (reports : Bool) {qs : List (Request ε σ)}
    (hqs : ∀ q ∈ qs, q.Within c.Known) (hX : c.Known X) (ht : c.Known target)
    (s? s?' : Option σ) (fallback : Descriptor → ε) :
    let f := ((new role reports).run qs).1
    let r := (f.resolve X s? fallback).1
    (∀ f' ns, (f.resolve X s? fallback).2.1.registerInstance target e = .ok (f', ns) →
      let r' := (f'.resolve X s?' fallback).1
      (r' = r ∨ r' = ⟨e, some ⟨target, false⟩⟩) ∧
        (r' = ⟨e, some ⟨target, false⟩⟩ ↔ target.isAssignableFrom X = true ∧
          Claim.overrides ⟨target, false⟩ r.source = true)) ∧
    ∀ f' ns, f.registerInstance target e = .ok (f', ns) →
      (f'.resolve X s?' fallback).1 = r ∨
        (f'.resolve X s?' fallback).1 = ⟨e, some ⟨target, false⟩⟩ := by
  intro f r
  have hK := hc.family
  have hP := hc.plain hi
  have hf : Sound c.Known f := (sound_new role reports).run hK qs hqs
  refine ⟨?_, fun f' ns hok => ?_⟩
  · intro f' ns hok r'
    have hf₁ : Sound c.Known (f.resolve X s? fallback).2.1 :=
      hf.step hK (q := .resolve X s? fallback) hX
    have hsync : InSync (f.resolve X s? fallback).2.1 X r := by
      obtain ⟨r₁, f₁, ns₁, hsync, -, -, -, heq⟩ := inSync_resolve hK hf hX s? fallback
      show InSync _ X (f.resolve X s? fallback).1
      rw [heq]
      cases s? with
      | none => exact hsync
      | some s => exact hsync.withSubscriptions _
    have hnone := extension_of_fallback hK hf hX s? fallback
    obtain ⟨heq, -⟩ := registerInstance_eq_ok hok
    have hf' : Sound c.Known f' := by
      have hleft := hf₁.step hK (q := .registerInstance target e) ht
      unfold Factory.step at hleft
      dsimp only at hleft
      rwa [hok] at hleft
    have hafter : InSync f' X
        (if target.isAssignableFrom X && Claim.overrides ⟨target, false⟩ r.source then
          ⟨e, some ⟨target, false⟩⟩ else r) := by
      rw [heq]
      exact (hsync.withExtension hK hP hX hf₁ ht e).withSubscriptions _
    cases hgiven : target.isAssignableFrom X && Claim.overrides ⟨target, false⟩ r.source with
    | true =>
        rw [hgiven, if_pos rfl] at hafter
        have hr' : r' = ⟨e, some ⟨target, false⟩⟩ :=
          resolve_eq_of_inSync hK hf' hX hafter nofun s?'
        exact ⟨.inr hr', iff_of_true hr' (Bool.and_eq_true_iff.mp hgiven)⟩
    | false =>
        rw [hgiven, if_neg Bool.false_ne_true] at hafter
        have hr' : r' = r := resolve_eq_of_inSync hK hf' hX hafter hnone s?'
        refine ⟨.inl hr', fun hnew => ?_, fun hsup => ?_⟩
        · -- Then it was the answer before, and overrides itself.
          have hsource : r.source = some ⟨target, false⟩ := by rw [← hr', hnew]
          refine ⟨isAssignableFrom_of_inSync hf₁ hsync hsource, ?_⟩
          rw [hsource]
          simp [Claim.overrides]
        · rw [hsup.1, hsup.2] at hgiven
          cases hgiven
  · obtain ⟨heq, -⟩ := registerInstance_eq_ok hok
    have hfind : (f'.find X).1 = (f.find X).1 ∨
        (f'.find X).1 = some ⟨e, some ⟨target, false⟩⟩ := by
      rw [heq]
      unfold find
      rw [lookup_withSubscriptions]
      exact lookup_withExtension hK hP hX ht e _ hf
    show _ = (f.resolve X s? fallback).1 ∨ _
    rw [resolve_eq_find, resolve_eq_find]
    rcases hfind with hsame | hnew
    · rw [hsame]
      exact .inl rfl
    · rw [hnew]
      exact .inr rfl

/-- A player is drawn as a drawable, because a shape was registered after the sprite.  The sprite
that is registered again is preferred to the drawable, and nothing else comes to the front. -/
theorem resolve_succession_player : ∃ f' ns,
    (((new none false).run drawings).1.resolve (sprite "Player") none Label.fallback).2.1.registerInstance
      (sprite "Sprite") ⟨"again", none⟩ = .ok (f', ns) ∧
    (f'.resolve (sprite "Player") none Label.fallback).1 =
      ⟨⟨"again", none⟩, some ⟨sprite "Sprite", false⟩⟩ := by
  have hok : ((((new none false).run drawings).1.resolve (sprite "Player") none
      Label.fallback).2.1.registerInstance (sprite "Sprite") ⟨"again", none⟩).isOk = true := by
    decide +kernel
  cases hout : (((new none false).run drawings).1.resolve (sprite "Player") none
      Label.fallback).2.1.registerInstance (sprite "Sprite") ⟨"again", none⟩ with
  | error err =>
      rw [hout] at hok
      cases hok
  | ok out =>
      obtain ⟨f', ns⟩ := out
      refine ⟨f', ns, rfl, ?_⟩
      have hsuccession := (resolve_succession orderly_sprites implementsInterfaces_sprites none false
        within_drawings (known_sprite (by decide)) (known_sprite (by decide)) none none
        Label.fallback).1 f' ns hout
      exact hsuccession.2.mpr ⟨by decide +kernel, by decide +kernel⟩

end ValueText.Factory
