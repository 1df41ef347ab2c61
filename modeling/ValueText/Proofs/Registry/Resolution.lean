/-
  ValueText.Proofs.Registry.Resolution — what a resolution comes to.

  A factory is sound if each registration has a number of its own, what constructors
  made is what they would make now, and those that are set aside do fail.  A resolution
  of a sound factory tries constructors until the preferred registration has an
  extension.

  Main results:

    • `obtained`      a constructor makes the same, whether it has been run before or not;
    • `answers_find`  a resolution answers with the leader of the registrations that are
                      left, and it needs no more tries than it has;
    • `inSync_resolve`  what is returned is in sync with the factory that is left.
-/
import ValueText.Proofs.Registry.Candidates

namespace ValueText.Factory

open Descriptor (Family)
open Preference (champion)

variable {ε σ : Type}

/-! ## §1. The numbers of registrations. -/

/-- The place of a registration: the type of an extension, or the definition of a constructor. -/
abbrev Place := TypeKey ⊕ TypeKey

/-- The number of the registration at a place. -/
def number? (f : Factory ε σ) : Place → Option Nat
  | .inl k => (f.instances.get? k).map (·.sequence)
  | .inr k => (f.generics.get? k).map (·.sequence)

/-- Each place has a number of its own, and none is greater than the last one. -/
structure Numbered (last : Nat) (number? : Place → Option Nat) : Prop where
  le : ∀ a n, number? a = some n → n ≤ last
  unique : ∀ a b n, number? a = some n → number? b = some n → a = b

theorem Numbered.set {last : Nat} {number? : Place → Option Nat} (h : Numbered last number?)
    (a : Place) : Numbered (last + 1) fun b => if a = b then some (last + 1) else number? b := by
  refine ⟨fun b n hb => ?_, fun b c n hb hc => ?_⟩
  · split at hb
    · cases hb
      omega
    · have := h.le b n hb
      omega
  · -- The new number is greater than all others.
    split at hb
    · next hab =>
        split at hc
        · next hac => exact hab.symm.trans hac
        · cases hb
          have := h.le c _ hc
          omega
    · split at hc
      · cases hc
        have := h.le b _ hb
        omega
      · exact h.unique b c n hb hc

/-- The place of a candidate. -/
def Candidate.place (x : Candidate ε) : Place :=
  match x.supply with
  | .ready _ => .inl x.claim.target.key
  | .toBuild g _ => .inr g

/-! ## §2. Sound factories. -/

/-- What a constructor makes for a closed type. -/
def attempt (f : Factory ε σ) (c : Constructor ε) (d : Descriptor) : Except InstantiationError ε :=
  c.build d (f.argumentsFor c d)

/-- All subscriptions, in the order in which they are visited. -/
def subscribers (f : Factory ε σ) : List (Subscription σ) := f.subscriptions.entries.flatMap (·.2)

/-- What every run keeps. -/
structure Sound (K : Descriptor → Prop) (f : Factory ε σ) : Prop where
  instance_ : ∀ k i, f.instances.get? k = some i → i.target.key = k ∧ K i.target
  numbered : Numbered f.lastSequence f.number?
  made : ∀ g d e, K d → f.made.get? (g, d.key) = some e →
    ∃ r, f.generics.get? g = some r ∧ f.attempt r.constructor d = .ok e
  failed : ∀ g d, K d → (g, d.key) ∈ f.failed →
    ∃ r err, f.generics.get? g = some r ∧ f.attempt r.constructor d = .error err
  subscribed : ∀ x ∈ f.subscribers, K x.objectType

/-- What has changed is only what constructors made or failed to make; the definitions of those
that failed are among `only`. -/
structure Worked (only : TypeKey → Prop) (f f' : Factory ε σ) : Prop where
  eq : f' = { f with made := f'.made, failed := f'.failed }
  failed : ∀ p ∈ f.failed, p ∈ f'.failed
  only : ∀ p ∈ f'.failed, p ∈ f.failed ∨ only p.1

namespace Worked

variable {only : TypeKey → Prop} {f f₁ f₂ : Factory ε σ}

theorem refl (f : Factory ε σ) : Worked only f f := ⟨rfl, fun _ h => h, fun _ h => .inl h⟩

theorem trans (h₁ : Worked only f f₁) (h₂ : Worked only f₁ f₂) : Worked only f f₂ := by
  refine ⟨?_, fun p hp => h₂.failed p (h₁.failed p hp), fun p hp => ?_⟩
  · rw [h₂.eq, h₁.eq]
  · rcases h₂.only p hp with hp | ho
    · exact h₁.only p hp
    · exact .inr ho

theorem weaken {only' : TypeKey → Prop} (h : Worked only f f₁) (ho : ∀ g, only g → only' g) :
    Worked only' f f₁ := ⟨h.eq, h.failed, fun p hp => (h.only p hp).imp_right (ho _)⟩

theorem instances (h : Worked only f f₁) : f₁.instances = f.instances := by rw [h.eq]

theorem generics (h : Worked only f f₁) : f₁.generics = f.generics := by rw [h.eq]

theorem role (h : Worked only f f₁) : f₁.role = f.role := by rw [h.eq]

theorem subscribers (h : Worked only f f₁) : f₁.subscribers = f.subscribers := by rw [h.eq]; rfl

/-- A constructor makes the same extensions. -/
theorem attempt (h : Worked only f f₁) (c : Constructor ε) (d : Descriptor) :
    f₁.attempt c d = f.attempt c d := by rw [h.eq]; rfl

end Worked

/-! ## §3. The work of constructors. -/

/-- The notices that a subscriber gets. -/
def deliveries [DecidableEq σ] (s : σ) (ns : List (Notice ε σ)) : List (Resolved ε) :=
  ns.filterMap fun
    | .delivered t r => if t = s then some r else none
    | _ => none

/-- No subscriber gets anything. -/
def Silent (ns : List (Notice ε σ)) : Prop := ∀ t r, Notice.delivered t r ∉ ns

theorem Silent.append {ns ms : List (Notice ε σ)} (h : Silent ns) (h' : Silent ms) :
    Silent (ns ++ ms) := by
  intro t r hmem
  rcases List.mem_append.mp hmem with hmem | hmem
  · exact h t r hmem
  · exact h' t r hmem

section

variable [DecidableEq σ]

theorem deliveries_append (s : σ) (ns ms : List (Notice ε σ)) :
    deliveries s (ns ++ ms) = deliveries s ns ++ deliveries s ms := List.filterMap_append

theorem Silent.deliveries {ns : List (Notice ε σ)} (h : Silent ns) (s : σ) :
    deliveries s ns = [] := by
  apply List.filterMap_eq_nil_iff.mpr
  intro n hn
  cases n with
  | delivered t r => exact absurd hn (h t r)
  | built => rfl
  | failed => rfl
  | fellBack => rfl

end

variable {K : Descriptor → Prop} {f : Factory ε σ} {X : Descriptor}

theorem silent_obtain (f : Factory ε σ) (g : TypeKey) (c : Constructor ε) (d : Descriptor) :
    Silent (f.obtain g c d).2.2 := by
  unfold obtain construct
  split
  · exact nofun
  · dsimp only
    split
    · intro t r h
      cases List.mem_singleton.mp h
    · intro t r h
      dsimp only at h
      split at h <;> simp at h

/-- A constructor that makes an extension is never set aside. -/
theorem Sound.not_mem_failed (hf : Sound K f) {g : TypeKey} {r : GenericEntry ε}
    (hr : f.generics.get? g = some r) {d : Descriptor} (hd : K d) {e : ε}
    (he : f.attempt r.constructor d = .ok e) : (g, d.key) ∉ f.failed := by
  intro hfailed
  obtain ⟨r', err, hr', herr⟩ := hf.failed g d hd hfailed
  rw [hr] at hr'
  cases hr'
  rw [he] at herr
  cases herr

/-- What asking a constructor for a closed type comes to. -/
structure Obtained (K : Descriptor → Prop) (f : Factory ε σ) (g : TypeKey) (c : Constructor ε)
    (d : Descriptor) (out : Option ε × Factory ε σ × List (Notice ε σ)) : Prop where
  value : out.1 = (f.attempt c d).toOption
  sound : Sound K out.2.1
  worked : Worked (· = g) f out.2.1
  failed : out.1 = none → (g, d.key) ∈ out.2.1.failed
  kept : ∀ e, out.1 = some e → out.2.1.failed = f.failed

/-- **A constructor makes the same, whether it has been run before or not.** -/
theorem obtained (hK : Family K) (hf : Sound K f) {g : TypeKey} {r : GenericEntry ε}
    (hr : f.generics.get? g = some r) {d : Descriptor} (hd : K d) :
    Obtained K f g r.constructor d (f.obtain g r.constructor d) := by
  unfold obtain
  split
  · next e he =>
      -- It was run before, and a sound factory keeps only what it would make now.
      obtain ⟨r', hr', hok⟩ := hf.made g d e hd he
      rw [hr] at hr'
      cases hr'
      refine ⟨?_, hf, .refl f, nofun, fun _ _ => rfl⟩
      rw [hok]
      rfl
  · unfold construct
    dsimp only
    split
    · next e he =>
        have hok : f.attempt r.constructor d = .ok e := he
        refine ⟨?_, ?_, ⟨rfl, fun _ h => h, fun _ h => .inl h⟩, nofun, fun _ _ => rfl⟩
        · rw [hok]
          rfl
        · refine ⟨hf.instance_, hf.numbered, fun g' d' e' hd' h => ?_, hf.failed, hf.subscribed⟩
          rw [Table.get?_set] at h
          split at h
          · next heq =>
              -- What is kept is found by the keys, which are those of one type.
              cases h
              injection heq with hg hkey
              rw [← hg, ← hK.unique d d' hd hd' hkey]
              exact ⟨r, hr, hok⟩
          · exact hf.made g' d' e' hd' h
    · next err herr =>
        have herr : f.attempt r.constructor d = .error err := herr
        refine ⟨?_, ?_, ⟨rfl, fun _ h => List.mem_cons_of_mem _ h, fun p h => ?_⟩,
          fun _ => List.mem_cons_self, fun e he => ?_⟩
        · rw [herr]
          rfl
        · refine ⟨hf.instance_, hf.numbered, hf.made, fun g' d' hd' h => ?_, hf.subscribed⟩
          rcases List.mem_cons.mp h with heq | h
          · injection heq with hg hkey
            rw [hg, hK.unique d' d hd' hd hkey]
            exact ⟨r, err, hr, herr⟩
          · exact hf.failed g' d' hd' h
        · rcases List.mem_cons.mp h with rfl | h
          · exact .inr rfl
          · exact .inl h
        · cases he

/-! ## §4. Resolution. -/

/-- The extension that a registration gives, unless its constructor fails. -/
def supplied? (f : Factory ε σ) (c : Claim) : Option ε :=
  if c.generic then
    match c.target.definition with
    | none => none
    | some g =>
        match f.generics.get? g.key with
        | none => none
        | some r => (f.attempt r.constructor c.target).toOption
  else (f.instances.get? c.target.key).map (·.extension)

/-- The registrations that a resolution chooses from. -/
def claims (f : Factory ε σ) (X : Descriptor) : List Claim := (f.candidates X).map (·.claim)

/-- The registration that is preferred. -/
def leader? (f : Factory ε σ) (X : Descriptor) : Option Claim := champion Claim.keeps (f.claims X)

/-- The answer is the one that the registrations give now. -/
structure InSync (f : Factory ε σ) (X : Descriptor) (r : Resolved ε) : Prop where
  source : r.source = f.leader? X
  extension : ∀ c, r.source = some c → f.supplied? c = some r.extension

theorem leader?_eq (f : Factory ε σ) (X : Descriptor) :
    f.leader? X = (f.winner? X).map (·.claim) := by
  rw [winner?_eq_champion]
  exact Preference.champion_map (f.candidates X)

theorem known_claims (hK : Family K) (hf : Sound K f) (hX : K X) : ∀ c ∈ f.claims X, K c.target := by
  intro c hc
  obtain ⟨x, hx, rfl⟩ := List.mem_map.mp hc
  obtain ⟨d, hd, hx⟩ := mem_candidates.mp hx
  cases hx with
  | «instance» hi => exact (hf.instance_ _ _ hi).2
  | generic => exact hK.mem_chain hX hd

theorem supplied?_generic {d g : Descriptor} (hg : d.definition = some g) {r : GenericEntry ε}
    (hr : f.generics.get? g.key = some r) :
    f.supplied? ⟨d, true⟩ = (f.attempt r.constructor d).toOption := by
  show (match d.definition with
    | none => none
    | some g =>
        match f.generics.get? g.key with
        | none => none
        | some r => (f.attempt r.constructor d).toOption) = _
  rw [hg]
  dsimp only
  rw [hr]

theorem supplied?_of_mem (hf : Sound K f) {x : Candidate ε} (hx : x ∈ f.candidates X) :
    f.supplied? x.claim = match x.supply with
      | .ready e => some e
      | .toBuild _ c => (f.attempt c x.claim.target).toOption := by
  obtain ⟨d, -, hx⟩ := mem_candidates.mp hx
  cases hx with
  | @«instance» i hi =>
      show (f.instances.get? i.target.key).map (·.extension) = some i.extension
      rw [(hf.instance_ _ _ hi).1, hi]
      rfl
  | generic hg hr hfailed => exact supplied?_generic hg hr

theorem Worked.supplied? {only : TypeKey → Prop} {f f' : Factory ε σ} (h : Worked only f f')
    (c : Claim) : f'.supplied? c = f.supplied? c := by
  rw [h.eq]
  rfl

/-- Whether a constructor may still be tried for a type. -/
def isOpen (f : Factory ε σ) (d : Descriptor) : Bool :=
  match d.definition with
  | none => false
  | some g => !f.failed.contains (g.key, d.key)

theorem isOpen_eq_false {d g : Descriptor} (hg : d.definition = some g)
    (h : (g.key, d.key) ∈ f.failed) : f.isOpen d = false := by
  unfold isOpen
  rw [hg]
  simpa using h

/-- A failure leaves less to be tried. -/
theorem open_lt {only : TypeKey → Prop} {f f' : Factory ε σ} (h : Worked only f f')
    {d g : Descriptor} (hd : d ∈ X.chain) (hg : d.definition = some g)
    (hbefore : (g.key, d.key) ∉ f.failed) (hafter : (g.key, d.key) ∈ f'.failed) :
    (X.chain.filter f'.isOpen).length < (X.chain.filter f.isOpen).length := by
  -- Nothing that was set aside is taken up again.
  have hsub : ∀ x, f'.isOpen x = true → f.isOpen x = true := by
    intro x hx
    unfold isOpen at hx ⊢
    split at hx
    · cases hx
    · simp only [Bool.not_eq_true', List.contains_eq_mem, decide_eq_false_iff_not] at hx ⊢
      exact fun hmem => hx (h.failed _ hmem)
  have hmem : d ∈ X.chain.filter f.isOpen := by
    refine List.mem_filter.mpr ⟨hd, ?_⟩
    unfold isOpen
    rw [hg]
    simpa using hbefore
  -- What is open afterwards is a part of what was open, without `d`.
  have heq : X.chain.filter f'.isOpen = (X.chain.filter f.isOpen).filter f'.isOpen := by
    rw [List.filter_filter]
    apply List.filter_congr
    intro x _
    cases hx : f'.isOpen x with
    | false => simp
    | true => simp [hsub x hx]
  rw [heq]
  refine List.length_filter_lt_length_iff_exists.mpr ⟨d, hmem, ?_⟩
  simp [isOpen_eq_false hg hafter]

/-- What a resolution comes to. -/
structure Answers (K : Descriptor → Prop) (f : Factory ε σ) (X : Descriptor)
    (out : Option (Resolved ε) × Factory ε σ × List (Notice ε σ)) : Prop where
  sound : Sound K out.2.1
  worked : Worked (fun _ => True) f out.2.1
  found : ∀ r, out.1 = some r → InSync out.2.1 X r ∧ r.source ≠ none
  missing : out.1 = none → out.2.1.leader? X = none
  silent : Silent out.2.2

/-- With fuel for every constructor that is left to be tried. -/
theorem answers_lookup (hK : Family K) (hX : K X) (fuel : Nat) : ∀ {f : Factory ε σ}, Sound K f →
    (X.chain.filter f.isOpen).length < fuel → Answers K f X (f.lookup fuel X) := by
  -- Induction on the fuel; each constructor that fails is set aside for good.
  induction fuel with
  | zero => intro f _ h; omega
  | succ fuel ih =>
      intro f hf hfuel
      unfold lookup
      have hleader := f.leader?_eq X
      split
      · next hw =>
          rw [hw] at hleader
          exact ⟨hf, .refl f, nofun, fun _ => hleader, nofun⟩
      · next claim n e hw =>
          rw [hw] at hleader
          have hmem := Preference.champion_mem ((winner?_eq_champion f X).symm.trans hw)
          refine ⟨hf, .refl f, fun r hr => ?_, nofun, nofun⟩
          cases hr
          refine ⟨⟨hleader.symm, fun c hc => ?_⟩, nofun⟩
          cases hc
          exact supplied?_of_mem hf hmem
      · next claim n definition c hw =>
          rw [hw] at hleader
          have hmem := Preference.champion_mem ((winner?_eq_champion f X).symm.trans hw)
          have hsupply := supplied?_of_mem hf hmem
          obtain ⟨d, hd, hcand⟩ := mem_candidates.mp hmem
          cases hcand with
          | @generic g r hg hr hfail =>
          have hdK : K d := hK.mem_chain hX hd
          have hout := obtained hK hf hr hdK
          have hsilent := f.silent_obtain g.key r.constructor d
          -- The constructor gives the answer, or it is set aside and there is less to try.
          split
          · next e f₁ ns hobtain =>
              rw [hobtain] at hout hsilent
              have hcandidates : f₁.candidates X = f.candidates X := by
                apply candidates_congr hout.worked.instances hout.worked.generics
                intro _ _ _ _
                rw [hout.kept e rfl]
              refine ⟨hout.sound, hout.worked.weaken fun _ _ => trivial, fun r' hr' => ?_, nofun,
                hsilent⟩
              cases hr'
              refine ⟨⟨?_, fun c hc => ?_⟩, nofun⟩
              · unfold leader? claims
                rw [hcandidates]
                exact hleader.symm
              · cases hc
                rw [hout.worked.supplied?]
                exact hsupply.trans hout.value.symm
          · next f₁ ns hobtain =>
              rw [hobtain] at hout hsilent
              have hlt := open_lt hout.worked hd hg hfail (hout.failed rfl)
              have hrec := ih hout.sound (by omega)
              refine ⟨hrec.sound, (hout.worked.weaken fun _ _ => trivial).trans hrec.worked,
                hrec.found, hrec.missing, hsilent.append hrec.silent⟩

/-- **A resolution answers with the leader**, once the constructors that fail are set aside. -/
theorem answers_find (hK : Family K) (hf : Sound K f) (hX : K X) : Answers K f X (f.find X) := by
  apply answers_lookup hK hX _ hf
  have := List.length_filter_le f.isOpen X.chain
  omega

/-- **What `resolve` returns is in sync with the factory**, and a subscriber gets it. -/
theorem inSync_resolve (hK : Family K) (hf : Sound K f) (hX : K X) (s? : Option σ)
    (fallback : Descriptor → ε) : ∃ r f₁ ns, InSync f₁ X r ∧ Sound K f₁ ∧
      Worked (fun _ => True) f f₁ ∧ Silent ns ∧ f.resolve X s? fallback = match s? with
        | none => (r, f₁, ns)
        | some s => (r, f₁.subscribe X r s, ns ++ [.delivered s r]) := by
  have hout := answers_find hK hf hX
  unfold resolve
  cases hfind : f.find X with
  | mk found rest =>
  obtain ⟨f₁, ns⟩ := rest
  rw [hfind] at hout
  cases found with
  | none =>
      refine ⟨⟨fallback X, none⟩, f₁, ns ++ [.fellBack X], ⟨(hout.missing rfl).symm, nofun⟩,
        hout.sound, hout.worked, hout.silent.append fun t r h => ?_, ?_⟩
      · cases List.mem_singleton.mp h
      · cases s? <;> rfl
  | some r =>
      refine ⟨r, f₁, ns, (hout.found r rfl).1, hout.sound, hout.worked, hout.silent, ?_⟩
      cases s? <;> rfl

end ValueText.Factory
