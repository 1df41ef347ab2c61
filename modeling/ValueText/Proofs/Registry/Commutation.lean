/-
  ValueText.Proofs.Registry.Commutation — registrations that may be made in any order.

  Two extensions are registered, one right after the other, for types of which one can be
  assigned to the other.  If they are registered the other way round, they have exchanged
  their numbers, and nothing else has changed: where both apply, the more specific one keeps
  its place before the other in either order.  So whatever was registered before and whatever
  comes later, each type is resolved to the same registration.

  Main results:

    • `Exchanged n A B f f'`    the factories differ in the order of the two registrations;
    • `Exchanged.winner?`       both prefer the same registration;
    • `Exchanged.step`          they still differ in nothing else after any request;
    • `exchanged_registrations` the two orders of registering lead to such factories;
    • `registrations_commute`   hence to the same answers after the same requests.
-/
import ValueText.Proofs.Registry.Independence
import ValueText.Proofs.Registry.Renumbering
import ValueText.Proofs.Registry.Succession

namespace ValueText.Factory

open Descriptor (Family Plain)
open Preference (Asymmetric Transitive champion challenge)

variable {ε σ : Type} {K : Descriptor → Prop} {f f' f₁ : Factory ε σ} {X A B : Descriptor}
  {n : Nat}

/-! ## §1. What does not look at extensions. -/

section Holding

variable {α : Type} (t : Table TypeKey (InstanceEntry ε))

/-- The outcome of an operation, with other extensions in the factory that it left. -/
def holding (out : α × Factory ε σ × List (Notice ε σ)) : α × Factory ε σ × List (Notice ε σ) :=
  (out.1, { out.2.1 with instances := t }, out.2.2)

theorem construct_holding (f : Factory ε σ) (g : TypeKey) (c : Constructor ε) (d : Descriptor) :
    ({ f with instances := t } : Factory ε σ).construct g c d = holding t (f.construct g c d) := by
  have harguments : ({ f with instances := t } : Factory ε σ).argumentsFor c d =
      f.argumentsFor c d := rfl
  unfold construct
  rw [harguments]
  dsimp only
  split <;> rfl

theorem obtain_holding (f : Factory ε σ) (g : TypeKey) (c : Constructor ε) (d : Descriptor) :
    ({ f with instances := t } : Factory ε σ).obtain g c d = holding t (f.obtain g c d) := by
  have hmade : ({ f with instances := t } : Factory ε σ).made = f.made := rfl
  unfold Factory.obtain
  rw [hmade, construct_holding]
  split <;> rfl

theorem offerGeneric_holding (g : TypeKey) (c : Constructor ε) (f : Factory ε σ)
    (s : Subscription σ) :
    offerGeneric g c { f with instances := t } s = holding t (offerGeneric g c f s) := by
  unfold offerGeneric
  split
  · rfl
  · dsimp only
    rw [obtain_holding]
    split
    · generalize f.obtain g c _ = out
      obtain ⟨value, f₁, ns⟩ := out
      cases value <;> rfl
    · rfl

variable {act : Factory ε σ → Subscription σ → Subscription σ × Factory ε σ × List (Notice ε σ)}
  (hact : ∀ f s, act { f with instances := t } s = holding t (act f s))

include hact in
theorem visit_holding (ss : List (Subscription σ)) : ∀ f : Factory ε σ,
    visit act { f with instances := t } ss = holding t (visit act f ss) := by
  induction ss with
  | nil => exact fun f => rfl
  | cons s rest ih =>
      intro f
      simp only [visit, hact, holding]
      rw [ih]
      rfl

include hact in
theorem visitAll_holding (es : List (TypeKey × List (Subscription σ))) : ∀ f : Factory ε σ,
    visitAll act { f with instances := t } es = holding t (visitAll act f es) := by
  induction es with
  | nil => exact fun f => rfl
  | cons e rest ih =>
      intro f
      obtain ⟨k, ss⟩ := e
      simp only [visitAll, visit_holding t hact, holding]
      rw [ih]
      rfl

/-- Constructors are registered without a look at the extensions. -/
theorem registerGeneric_holding (f : Factory ε σ) (definition : Descriptor) (c : Constructor ε) :
    ({ f with instances := t } : Factory ε σ).registerGeneric definition c =
      (f.registerGeneric definition c).map fun out => ({ out.1 with instances := t }, out.2) := by
  have hcheck : ({ f with instances := t } : Factory ε σ).checkGeneric definition c =
      f.checkGeneric definition c := rfl
  unfold registerGeneric
  rw [hcheck]
  cases f.checkGeneric definition c with
  | error err => rfl
  | ok _ =>
      dsimp only
      have hvisits := visitAll_holding t (offerGeneric_holding t definition.key c)
        f.subscriptions.entries (f.withConstructor definition c)
      unfold withConstructor at hvisits
      dsimp only at hvisits
      rw [hvisits]
      rfl

end Holding

/-! ## §2. Factories that differ in the order of two registrations. -/

/-- The entry with the number that it has in the other order. -/
def InstanceEntry.exchange (n : Nat) (i : InstanceEntry ε) : InstanceEntry ε :=
  { i with sequence := StableSort.exchange n i.sequence }

/-- The candidate with the number that it has in the other order. -/
def Candidate.exchange (n : Nat) (x : Candidate ε) : Candidate ε :=
  { x with sequence := StableSort.exchange n x.sequence }

/-- The factories differ in two numbers: in the first one, only extensions for `A` have the number
`n`, and only those for `B` the next one; in the other one it is the other way round. -/
structure Exchanged (n : Nat) (A B : Descriptor) (f f' : Factory ε σ) : Prop where
  rest : f' = { f with instances := f'.instances }
  instances : ∀ k, f'.instances.get? k = (f.instances.get? k).map (InstanceEntry.exchange n)
  used : n + 1 ≤ f.lastSequence
  first : ∀ a, f.number? a = some n → a = .inl A.key
  second : ∀ a, f.number? a = some (n + 1) → a = .inl B.key

namespace Exchanged

/-- Constructors have other numbers than the two. -/
theorem sequence_generic (h : Exchanged n A B f f') {g : TypeKey} {r : GenericEntry ε}
    (hr : f.generics.get? g = some r) : StableSort.exchange n r.sequence = r.sequence := by
  have hnumber : f.number? (.inr g) = some r.sequence := by
    show (f.generics.get? g).map (·.sequence) = _
    rw [hr]
    rfl
  apply StableSort.exchange_of_ne
  · intro he
    cases h.first _ (he ▸ hnumber)
  · intro he
    cases h.second _ (he ▸ hnumber)

theorem candidatesAt (h : Exchanged n A B f f') (d : Descriptor) :
    f'.candidatesAt d = (f.candidatesAt d).map (Candidate.exchange n) := by
  rw [candidatesAt_eq, candidatesAt_eq, List.map_append]
  congr 1
  · unfold instancesAt
    rw [h.instances]
    cases f.instances.get? d.key <;> rfl
  · have hgenerics : f'.generics = f.generics := by rw [h.rest]
    have hfailed : f'.failed = f.failed := by rw [h.rest]
    unfold genericsAt
    rw [hgenerics, hfailed]
    cases d.definition with
    | none => rfl
    | some g =>
        dsimp only
        split
        · rfl
        · cases hr : f.generics.get? g.key with
          | none => rfl
          | some r =>
              show [GenericEntry.candidate r g.key d] =
                [Candidate.exchange n (GenericEntry.candidate r g.key d)]
              unfold Candidate.exchange GenericEntry.candidate
              rw [h.sequence_generic hr]

/-- **The candidates are the same, in the other order.** -/
theorem candidates (h : Exchanged n A B f f') (X : Descriptor) : ∃ before xs ys after,
    f.candidates X = before ++ xs ++ ys ++ after ∧
    f'.candidates X = (before ++ ys ++ xs ++ after).map (Candidate.exchange n) ∧
    StableSort.Around Candidate.sequence n before xs ys after := by
  have hall : X.chain.flatMap f'.candidatesAt =
      (X.chain.flatMap f.candidatesAt).map (Candidate.exchange n) := by
    rw [List.map_flatMap]
    exact congrArg (List.flatMap · X.chain) (funext h.candidatesAt)
  obtain ⟨before, xs, ys, after, hsplit, hexchanged, haround⟩ :=
    StableSort.sort_exchange n (X.chain.flatMap f.candidatesAt)
  refine ⟨before, xs, ys, after, hsplit, ?_, haround⟩
  unfold Factory.candidates
  rw [hall, ← hexchanged]
  exact StableSort.sort_map (fun a b => rfl) _

/-- The extension with a number is the one for the type that the number belongs to. -/
theorem claim_of_number (hK : Family K) (hf : Sound K f) (hA : K A)
    (hfirst : ∀ a, f.number? a = some n → a = .inl A.key) {x : Candidate ε}
    (hx : x ∈ f.candidates X) (hn : x.sequence = n) : x.claim = ⟨A, false⟩ := by
  have hplace := hfirst x.place (hn ▸ number?_of_mem hf hx)
  obtain ⟨-, i, hi, rfl⟩ := (mem_block_inl hf).mp (mem_block.mpr ⟨hx, hplace⟩)
  obtain ⟨hkey, hknown⟩ := hf.instance_ _ _ hi
  show (⟨i.target, false⟩ : Claim) = _
  rw [hK.unique _ _ hknown hA hkey]

/-- **Both prefer the same registration.** -/
theorem winner? (hK : Family K) (hP : Plain K) (hf : Sound K f) (hX : K X) (hA : K A) (hB : K B)
    (hkeeps : Claim.keeps ⟨A, false⟩ ⟨B, false⟩ = true ∨ Claim.keeps ⟨B, false⟩ ⟨A, false⟩ = true)
    (h : Exchanged n A B f f') :
    f'.winner? X = (f.winner? X).map (Candidate.exchange n) := by
  obtain ⟨before, xs, ys, after, hsplit, hexchanged, haround⟩ := h.candidates X
  have hmem {x : Candidate ε} (hx : x ∈ before ++ xs ++ ys ++ after) : x ∈ f.candidates X := by
    rwa [hsplit]
  have hasym := Candidate.asymmetric hK (known_candidates hK hf hX)
  have htrans := Candidate.transitive hK hP (known_candidates hK hf hX)
  have hcomparable : ∀ x ∈ xs, ∀ y ∈ ys, x.keeps y = true ∨ y.keeps x = true := by
    intro x hx y hy
    unfold Candidate.keeps
    rw [claim_of_number hK hf hA h.first (hmem (by simp [hx])) (haround.first x hx),
      claim_of_number hK hf hB h.second (hmem (by simp [hy])) (haround.second y hy)]
    exact hkeeps
  rw [winner?_eq_champion, winner?_eq_champion, hexchanged, hsplit, Preference.champion_map,
    Preference.champion_exchange hasym htrans (fun x hx => hmem hx) hcomparable]
  rfl

/-! ## §3. Requests. -/

theorem number?_of_worked {only : TypeKey → Prop} (hw : Worked only f f₁) :
    f₁.number? = f.number? := by
  rw [hw.eq]
  rfl

/-- The work of constructors does not touch the numbers. -/
theorem worked {only : TypeKey → Prop} (h : Exchanged n A B f f') (hw : Worked only f f₁) :
    Exchanged n A B f₁ { f₁ with instances := f'.instances } := by
  refine ⟨rfl, fun k => ?_, ?_, ?_, ?_⟩
  · rw [hw.instances]
    exact h.instances k
  · rw [hw.eq]
    exact h.used
  · rw [number?_of_worked hw]
    exact h.first
  · rw [number?_of_worked hw]
    exact h.second

theorem withSubscriptions (h : Exchanged n A B f f')
    (t : Table TypeKey (List (Subscription σ))) :
    Exchanged n A B { f with subscriptions := t } { f' with subscriptions := t } := by
  refine ⟨?_, h.instances, h.used, h.first, h.second⟩
  rw [h.rest]

section Resolving

variable (hK : Family K) (hP : Plain K) (hA : K A) (hB : K B)
  (hkeeps : Claim.keeps ⟨A, false⟩ ⟨B, false⟩ = true ∨ Claim.keeps ⟨B, false⟩ ⟨A, false⟩ = true)

include hK hP hA hB hkeeps in
theorem lookup (hX : K X) (fuel : Nat) : ∀ {f f' : Factory ε σ}, Sound K f →
    Exchanged n A B f f' → f'.lookup fuel X = holding f'.instances (f.lookup fuel X) := by
  -- Induction on the fuel: a constructor that fails is set aside by both.
  induction fuel with
  | zero =>
      intro f f' _ h
      show (none, f', []) = (none, { f with instances := f'.instances }, [])
      rw [← h.rest]
  | succ fuel ih =>
      intro f f' hf h
      have hobtain (g : TypeKey) (c : Constructor ε) (d : Descriptor) :
          f'.obtain g c d = holding f'.instances (f.obtain g c d) := by
        have hobtain := obtain_holding f'.instances f g c d
        rwa [← h.rest] at hobtain
      unfold Factory.lookup
      rw [h.winner? hK hP hf hX hA hB hkeeps]
      cases hw : f.winner? X with
      | none =>
          show (none, f', []) = (none, { f with instances := f'.instances }, [])
          rw [← h.rest]
      | some x =>
          obtain ⟨d, hd, hx⟩ := isCandidateAt_winner hw
          cases hx with
          | @«instance» i hi =>
              show (some _, f', []) = (some _, { f with instances := f'.instances }, [])
              rw [← h.rest]
              rfl
          | @generic g r hg hr hfailed =>
              have hout := obtained hK hf hr (hK.mem_chain hX hd)
              dsimp only [Option.map_some, Candidate.exchange, GenericEntry.candidate]
              rw [hobtain]
              generalize f.obtain g.key r.constructor d = out at hout
              obtain ⟨value, f₁, ns⟩ := out
              cases value with
              | some e => rfl
              | none =>
                  have hrest := ih hout.sound (h.worked hout.worked)
                  dsimp only [holding]
                  rw [hrest]
                  rfl

include hK hP hA hB hkeeps in
/-- **Both resolve a type to the same registration.** -/
theorem resolve (hf : Sound K f) (h : Exchanged n A B f f') (hX : K X) (s? : Option σ)
    (fallback : Descriptor → ε) :
    f'.resolve X s? fallback = holding f'.instances (f.resolve X s? fallback) := by
  have hlookup := h.lookup hK hP hA hB hkeeps hX (X.chain.length + 1) hf
  unfold Factory.resolve find
  rw [hlookup]
  generalize f.lookup (X.chain.length + 1) X = out
  obtain ⟨found, f₁, ns⟩ := out
  cases found <;> cases s? <;> rfl

end Resolving

end Exchanged

/-- The factory with one more extension, which was offered to the subscribers. -/
def registered (f : Factory ε σ) (target : Descriptor) (e : ε) : Factory ε σ :=
  { f.withExtension target e with
    subscriptions := f.subscriptions.map (List.map fun x => (offerInstance target e x).1) }

theorem visitAll_offerVisit (target : Descriptor) (e : ε)
    (es : List (TypeKey × List (Subscription σ))) : ∀ u : Unit,
    (visitAll (offerVisit target e) u es).1 =
      es.map fun p => (p.1, p.2.map fun x => (offerInstance target e x).1) := by
  have hvisit (xs : List (Subscription σ)) : ∀ u : Unit,
      (visit (offerVisit target e) u xs).1 = xs.map fun x => (offerInstance target e x).1 := by
    induction xs with
    | nil => exact fun u => rfl
    | cons x xs ih => exact fun u => congrArg _ (ih _)
  induction es with
  | nil => exact fun u => rfl
  | cons p es ih =>
      intro u
      obtain ⟨k, xs⟩ := p
      show (k, (visit (offerVisit target e) u xs).1) :: _ = _
      rw [hvisit]
      exact congrArg _ (ih _)

variable [Extension ε]

theorem step_registerInstance (f : Factory ε σ) (target : Descriptor) (e : ε) :
    (f.step (.registerInstance target e)).1 = match checkInstance target e with
      | .ok _ => f.registered target e
      | .error _ => f := by
  unfold step registerInstance
  dsimp only
  cases checkInstance target e with
  | error err => rfl
  | ok _ =>
      have hvisits := visitAll_offerVisit target e f.subscriptions.entries ()
      show ({ f.withExtension target e with
        subscriptions := ⟨(visitAll (offerVisit target e) () f.subscriptions.entries).1⟩ } :
          Factory ε σ) = _
      rw [hvisits]
      rfl

namespace Exchanged

/-- A number that was given before is still that of the place that it was given to. -/
theorem number_of_set {last m : Nat} {number? : Place → Option Nat} {a b : Place}
    (h : (fun b' => if b = b' then some (last + 1) else number? b') a = some m) (hm : m ≤ last) :
    number? a = some m := by
  dsimp only at h
  split at h
  · have hlt := Option.some.inj h
    omega
  · exact h

omit [Extension ε] in
/-- A later registration has a later number. -/
theorem registered (h : Exchanged n A B f f') (target : Descriptor) (e : ε) :
    Exchanged n A B (f.registered target e) (f'.registered target e) := by
  have hused := h.used
  have hnumber : (f.registered target e).number? = (f.withExtension target e).number? := rfl
  refine ⟨?_, fun k => ?_, Nat.le_succ_of_le hused, fun a ha => ?_, fun a ha => ?_⟩
  · rw [h.rest]
    rfl
  · have hlast : f'.lastSequence = f.lastSequence := by rw [h.rest]
    show (f'.instances.set target.key ⟨target, e, f'.lastSequence + 1⟩).get? k =
      ((f.instances.set target.key ⟨target, e, f.lastSequence + 1⟩).get? k).map _
    rw [Table.get?_set, Table.get?_set, hlast]
    split
    · have hgt : n + 1 < f.lastSequence + 1 := Nat.lt_succ_of_le hused
      rw [Option.map_some, InstanceEntry.exchange, StableSort.exchange_of_gt hgt]
    · exact h.instances k
  · rw [hnumber, number?_withExtension] at ha
    exact h.first a (number_of_set ha (Nat.le_of_succ_le hused))
  · rw [hnumber, number?_withExtension] at ha
    exact h.second a (number_of_set ha hused)

omit [Extension ε] in
theorem withConstructor (h : Exchanged n A B f f') (definition : Descriptor) (c : Constructor ε) :
    Exchanged n A B (f.withConstructor definition c)
      { f.withConstructor definition c with instances := f'.instances } := by
  have hused := h.used
  refine ⟨rfl, h.instances, Nat.le_succ_of_le hused, fun a ha => ?_, fun a ha => ?_⟩
  · rw [number?_withConstructor] at ha
    exact h.first a (number_of_set ha (Nat.le_of_succ_le hused))
  · rw [number?_withConstructor] at ha
    exact h.second a (number_of_set ha hused)

/-- **After any request the factories differ in the two numbers only.** -/
theorem step (hK : Family K) (hP : Plain K) (hA : K A) (hB : K B)
    (hkeeps : Claim.keeps ⟨A, false⟩ ⟨B, false⟩ = true ∨ Claim.keeps ⟨B, false⟩ ⟨A, false⟩ = true)
    (hf : Sound K f) (h : Exchanged n A B f f') {q : Request ε σ} (hq : q.Within K) :
    Exchanged n A B (f.step q).1 (f'.step q).1 := by
  cases q with
  | registerInstance target e =>
      rw [step_registerInstance, step_registerInstance]
      split
      · exact h.registered target e
      · exact h
  | registerGeneric definition c =>
      have hregister := registerGeneric_holding f'.instances f definition c
      rw [← h.rest] at hregister
      unfold Factory.step
      dsimp only
      rw [hregister]
      cases hout : f.registerGeneric definition c with
      | error err => exact h
      | ok out =>
          obtain ⟨f₁, ns⟩ := out
          obtain ⟨-, f₂, heq, hvisit⟩ := registerGeneric_eq_ok hout
          obtain ⟨-, hworked⟩ := worked_visit hK hf definition c hf.subscribed
          rw [hvisit] at hworked
          have hleft := ((h.withConstructor definition c).worked hworked).withSubscriptions
            f₁.subscriptions
          show Exchanged n A B f₁ { f₁ with instances := f'.instances }
          generalize f₁.subscriptions = t at heq hleft
          subst heq
          exact hleft
  | clear =>
      refine ⟨?_, fun k => rfl, h.used, fun a ha => ?_, fun a ha => ?_⟩
      · rw [h.rest]
        rfl
      · cases a <;> cases ha
      · cases a <;> cases ha
  | resolve Y s? fallback =>
      obtain ⟨r, f₁, ns, -, -, hworked, -, heq⟩ := inSync_resolve hK hf hq s? fallback
      have hresolve := h.resolve hK hP hA hB hkeeps hf hq s? fallback
      show Exchanged n A B (f.resolve Y s? fallback).2.1 (f'.resolve Y s? fallback).2.1
      rw [hresolve, heq]
      cases s? with
      | none => exact h.worked hworked
      | some s => exact (h.worked hworked).withSubscriptions _

/-- **So they do after any run.** -/
theorem run (hK : Family K) (hP : Plain K) (hA : K A) (hB : K B)
    (hkeeps : Claim.keeps ⟨A, false⟩ ⟨B, false⟩ = true ∨ Claim.keeps ⟨B, false⟩ ⟨A, false⟩ = true)
    (qs : List (Request ε σ)) : ∀ {f f' : Factory ε σ}, Sound K f → Exchanged n A B f f' →
    (∀ q ∈ qs, q.Within K) → Exchanged n A B (f.run qs).1 (f'.run qs).1 := by
  induction qs with
  | nil => exact fun _ h _ => h
  | cons q qs ih =>
      intro f f' hf h hqs
      have hq := hqs q List.mem_cons_self
      rw [run_cons, run_cons]
      exact ih (hf.step hK hq) (h.step hK hP hA hB hkeeps hf hq) fun q' hq' =>
        hqs q' (List.mem_cons_of_mem _ hq')

end Exchanged

/-! ## §4. Subscribers. -/

/-- The subscribers have their answers from registrations for types of the family. -/
def Claimed (K : Descriptor → Prop) (f : Factory ε σ) : Prop :=
  ∀ x ∈ f.subscribers, ∀ c, x.current = some c → K c.target

omit [Extension ε] in
/-- What a subscriber has after an offer is the best of what it had and what is offered. -/
theorem offerInstance_eq (target : Descriptor) (e : ε) (x : Subscription σ) :
    (offerInstance target e x).1 = { x with
      current := if target.isAssignableFrom x.objectType then
        challenge Claim.keeps x.current ⟨target, false⟩ else x.current } := by
  unfold offerInstance
  dsimp only
  rw [Claim.challenge_eq]
  cases target.isAssignableFrom x.objectType with
  | false => rfl
  | true =>
      rw [Bool.true_and, if_pos rfl]
      split <;> rfl

omit [Extension ε] in
theorem current_offerInstance {target : Descriptor} {e : ε} {x : Subscription σ} {c : Claim}
    (h : (offerInstance target e x).1.current = some c) :
    x.current = some c ∨ c = ⟨target, false⟩ := by
  unfold offerInstance at h
  dsimp only at h
  split at h
  · exact .inr (Option.some.inj h).symm
  · exact .inl h

omit [Extension ε] in
theorem current_offerGeneric {definition : TypeKey} {k : Constructor ε} {x : Subscription σ}
    {c : Claim} (h : (offerGeneric definition k f x).1.current = some c) :
    x.current = some c ∨ c.target ∈ x.objectType.chain := by
  have hoffered := offered definition k f x
  generalize offerGeneric definition k f x = out at h hoffered
  cases hoffered with
  | none => exact .inl h
  | refused => exact .inl h
  | failed => exact .inl h
  | given d hd =>
      cases Option.some.inj h
      exact .inr (closedIn?_mem hd).1

omit [Extension ε] in
/-- Visits that give subscribers nothing but registrations for types of the family. -/
theorem Claimed.visit {α : Type} {a : α}
    {act : α → Subscription σ → Subscription σ × α × List (Notice ε σ)} (h : Claimed K f)
    (hleft : (Factory.visit act a f.subscribers).1 = f₁.subscribers)
    (hact : ∀ y ∈ f.subscribers, ∀ a c, (act a y).1.current = some c →
      y.current = some c ∨ K c.target) : Claimed K f₁ := by
  intro x hx c hc
  rw [← hleft] at hx
  obtain ⟨y, hy, a', rfl⟩ := mem_visit _ hx
  rcases hact y hy a' c hc with hc | hc
  · exact h y hy c hc
  · exact hc

/-- **A request leaves the subscribers with registrations for types of the family.** -/
theorem Claimed.step (hK : Family K) (hf : Sound K f) (h : Claimed K f) {q : Request ε σ}
    (hq : q.Within K) : Claimed K (f.step q).1 := by
  cases q with
  | registerInstance target e =>
      unfold Factory.step
      dsimp only
      split
      · next out hout =>
          obtain ⟨-, hvisit⟩ := registerInstance_eq_ok hout
          refine h.visit (congrArg Prod.fst hvisit) fun y _ _ c hc => ?_
          rcases current_offerInstance hc with hc | rfl
          · exact .inl hc
          · exact .inr hq
      · exact h
  | registerGeneric definition k =>
      unfold Factory.step
      dsimp only
      split
      · next out hout =>
          obtain ⟨-, f₁, -, hvisit⟩ := registerGeneric_eq_ok hout
          exact h.visit (congrArg Prod.fst hvisit) fun y hy _ c hc =>
            (current_offerGeneric hc).imp_right (hK.mem_chain (hf.subscribed y hy))
      · exact h
  | clear => exact nofun
  | resolve Y s? fallback =>
      obtain ⟨r, f₁, ns, hsync, hsound, hworked, -, heq⟩ := inSync_resolve hK hf hq s? fallback
      have hleft : Claimed K f₁ := by
        intro x hx
        rw [hworked.subscribers] at hx
        exact h x hx
      show Claimed K (f.resolve Y s? fallback).2.1
      rw [heq]
      cases s? with
      | none => exact hleft
      | some s =>
          obtain ⟨as, bs, hbefore, hafter⟩ := f₁.subscribers_subscribe Y r s
          intro x hx c hc
          have hx : x ∈ as ++ ⟨Y, r.source, s⟩ :: bs := by rw [← hafter]; exact hx
          rcases List.mem_append.mp hx with hx | hx
          · exact hleft x (by rw [hbefore]; exact List.mem_append_left _ hx) c hc
          · rcases List.mem_cons.mp hx with rfl | hx
            · -- The new one has the leader, which is one of the registrations.
              have hmem := Preference.champion_mem (hsync.source.symm.trans hc)
              exact known_claims hK hsound hq c hmem
            · exact hleft x (by rw [hbefore]; exact List.mem_append_right _ hx) c hc

theorem Claimed.run (hK : Family K) (qs : List (Request ε σ)) : ∀ {f : Factory ε σ}, Sound K f →
    Claimed K f → (∀ q ∈ qs, q.Within K) → Claimed K (f.run qs).1 := by
  induction qs with
  | nil => exact fun _ h _ => h
  | cons q qs ih =>
      intro f hf h hqs
      have hq := hqs q List.mem_cons_self
      rw [run_cons]
      exact ih (hf.step hK hq) (h.step hK hf hq) fun q' hq' => hqs q' (List.mem_cons_of_mem _ hq')

/-! ## §5. Two registrations in a row. -/

section Orders

variable (hK : Family K) (hP : Plain K) (hA : K A) (hB : K B)
  (hkeeps : Claim.keeps ⟨A, false⟩ ⟨B, false⟩ = true ∨ Claim.keeps ⟨B, false⟩ ⟨A, false⟩ = true)

include hK hP hA hB hkeeps

omit [Extension ε] in
/-- A subscriber who is offered both has the same of them in the end. -/
theorem offers_commute (e e' : ε) {x : Subscription σ}
    (hx : ∀ c, x.current = some c → K c.target) :
    (offerInstance B e' (offerInstance A e x).1).1 =
      (offerInstance A e (offerInstance B e' x).1).1 := by
  rw [offerInstance_eq, offerInstance_eq, offerInstance_eq, offerInstance_eq]
  dsimp only
  have hground : ∀ c ∈ x.current.toList ++ [⟨A, false⟩, ⟨B, false⟩], K c.target := by
    intro c hc
    rcases List.mem_append.mp hc with hc | hc
    · exact hx c (Option.mem_toList.mp hc)
    · simp only [List.mem_cons, List.not_mem_nil, or_false] at hc
      rcases hc with rfl | rfl
      · exact hA
      · exact hB
  have hcomm : challenge Claim.keeps (challenge Claim.keeps x.current ⟨A, false⟩) ⟨B, false⟩ =
      challenge Claim.keeps (challenge Claim.keeps x.current ⟨B, false⟩) ⟨A, false⟩ :=
    Preference.challenge_comm (Claim.asymmetric hK _ hground) (Claim.transitive hK hP _ hground)
      (fun y hy => List.mem_append_left _ (Option.mem_toList.mpr hy))
      (List.mem_append_right _ (by simp)) (List.mem_append_right _ (by simp)) hkeeps
  cases A.isAssignableFrom x.objectType <;> cases B.isAssignableFrom x.objectType
  · rfl
  · rfl
  · rfl
  · simp only [if_true]
    rw [hcomm]

omit [Extension ε] in
theorem subscriptions_commute (hclaimed : Claimed K f) (e e' : ε) :
    ((f.registered B e').registered A e).subscriptions =
      ((f.registered A e).registered B e').subscriptions := by
  show (f.subscriptions.map _).map _ = (f.subscriptions.map _).map _
  unfold Table.map
  simp only [List.map_map]
  refine congrArg Table.mk (List.map_congr_left fun p hp => ?_)
  dsimp only [Function.comp_apply]
  rw [List.map_map, List.map_map]
  refine congrArg (Prod.mk p.1) (List.map_congr_left fun x hx => ?_)
  exact (offers_commute hK hP hA hB hkeeps e e' (hclaimed x
    (List.mem_flatMap.mpr ⟨p, hp, hx⟩))).symm

omit [Extension ε] hK hP hA hB hkeeps in
/-- Two entries that are made in the other order have exchanged their numbers. -/
theorem instances_exchanged (hne : A.key ≠ B.key) (hf : Sound K f) (e e' : ε) (k : TypeKey) :
    ((f.registered B e').registered A e).instances.get? k =
      (((f.registered A e).registered B e').instances.get? k).map
        (InstanceEntry.exchange (f.lastSequence + 1)) := by
  show ((f.instances.set B.key ⟨B, e', f.lastSequence + 1⟩).set A.key
      ⟨A, e, f.lastSequence + 1 + 1⟩).get? k =
    (((f.instances.set A.key ⟨A, e, f.lastSequence + 1⟩).set B.key
      ⟨B, e', f.lastSequence + 1 + 1⟩).get? k).map _
  simp only [Table.get?_set]
  by_cases hkA : A.key = k
  · have hkB : B.key ≠ k := fun hkB => hne (hkA.trans hkB.symm)
    rw [if_pos hkA, if_neg hkB, if_pos hkA, Option.map_some, InstanceEntry.exchange,
      StableSort.exchange_left]
  · by_cases hkB : B.key = k
    · rw [if_neg hkA, if_pos hkB, if_pos hkB, Option.map_some, InstanceEntry.exchange,
        StableSort.exchange_right]
    · rw [if_neg hkA, if_neg hkB, if_neg hkB, if_neg hkA]
      cases hi : f.instances.get? k with
      | none => rfl
      | some i =>
          -- What was registered before has a smaller number than both.
          have hle : i.sequence ≤ f.lastSequence := by
            apply hf.numbered.le (.inl k)
            show (f.instances.get? k).map (·.sequence) = _
            rw [hi]
            rfl
          rw [Option.map_some, InstanceEntry.exchange, StableSort.exchange_of_lt (by omega)]

omit [Extension ε] hK hP hA hB hkeeps in
theorem number?_registered (e e' : ε) (a : Place) :
    ((f.registered A e).registered B e').number? a =
      if Sum.inl B.key = a then some (f.lastSequence + 1 + 1)
      else if Sum.inl A.key = a then some (f.lastSequence + 1) else f.number? a := by
  show ((f.withExtension A e).withExtension B e').number? a = _
  rw [number?_withExtension, number?_withExtension]
  rfl

omit [Extension ε] in
/-- **The two orders of registering** lead to factories that differ in the two numbers only. -/
theorem exchanged_registered (hne : A.key ≠ B.key) (hf : Sound K f) (hclaimed : Claimed K f)
    (e e' : ε) : Exchanged (f.lastSequence + 1) A B ((f.registered A e).registered B e')
      ((f.registered B e').registered A e) := by
  refine ⟨?_, instances_exchanged hne hf e e', Nat.le_refl _, fun a ha => ?_, fun a ha => ?_⟩
  · have hset : (f.registered B e').registered A e =
        { (f.registered B e').registered A e with
          subscriptions := ((f.registered A e).registered B e').subscriptions } := by
      rw [← subscriptions_commute hK hP hA hB hkeeps hclaimed e e']
    exact hset.trans rfl
  · rw [number?_registered] at ha
    split at ha
    · have heq := Option.some.inj ha
      omega
    · split at ha
      · next hkA => exact hkA.symm
      · have hle := hf.numbered.le a _ ha
        omega
  · rw [number?_registered] at ha
    split at ha
    · next hkB => exact hkB.symm
    · split at ha
      · have heq := Option.some.inj ha
        omega
      · have hle := hf.numbered.le a _ ha
        omega

/-- Two registrations in a row, each of which may be refused. -/
theorem exchanged_registrations (hne : A.key ≠ B.key) (hf : Sound K f) (hclaimed : Claimed K f)
    (e e' : ε) :
    let first := (f.run [.registerInstance A e, .registerInstance B e']).1
    let other := (f.run [.registerInstance B e', .registerInstance A e]).1
    other = first ∨ Exchanged (f.lastSequence + 1) A B first other := by
  have hrun (C D : Descriptor) (u w : ε) :
      (f.run [.registerInstance C u, .registerInstance D w]).1 =
        ((f.step (.registerInstance C u)).1.step (.registerInstance D w)).1 := rfl
  dsimp only
  simp only [hrun, step_registerInstance]
  cases checkInstance A e with
  | error err => exact .inl rfl
  | ok _ =>
      cases checkInstance B e' with
      | error err => exact .inl rfl
      | ok _ => exact .inr (exchanged_registered hK hP hA hB hkeeps hne hf hclaimed e e')

end Orders

/-! ## §6. Answers. -/

/-- The registrations for two types one of which can be assigned to the other are comparable. -/
theorem keeps_of_isAssignableFrom (hK : Family K) (hA : K A) (hB : K B) (hne : A.key ≠ B.key)
    (h : A.isAssignableFrom B = true ∨ B.isAssignableFrom A = true) :
    Claim.keeps ⟨A, false⟩ ⟨B, false⟩ = true ∨ Claim.keeps ⟨B, false⟩ ⟨A, false⟩ = true := by
  rcases h with h | h
  · exact .inr ((Claim.keeps_iff hK hB hA).mpr (.inr ⟨hne.symm, h⟩))
  · exact .inl ((Claim.keeps_iff hK hA hB).mpr (.inr ⟨hne, h⟩))

/-- **Registrations for comparable types commute.**  Whatever was asked of the factory before two
extensions are registered, one right after the other, for types of which one can be assigned to
the other, and whatever is asked of it afterwards: each type is resolved to what it is resolved to
if they are registered the other way round. -/
theorem registrations_commute {c : Catalog} (hc : c.Orderly) (hi : c.ImplementsInterfaces)
    (role : Option Descriptor) (reports : Bool) {before after : List (Request ε σ)}
    (hbefore : ∀ q ∈ before, q.Within c.Known) (hafter : ∀ q ∈ after, q.Within c.Known)
    (hA : c.Known A) (hB : c.Known B) (hne : A.key ≠ B.key)
    (hcomparable : A.isAssignableFrom B = true ∨ B.isAssignableFrom A = true) (e e' : ε)
    (hX : c.Known X) (s? : Option σ) (fallback : Descriptor → ε) :
    (((new role reports).run (before ++
        [.registerInstance A e, .registerInstance B e'] ++ after)).1.resolve X s? fallback).1 =
      (((new role reports).run (before ++
        [.registerInstance B e', .registerInstance A e] ++ after)).1.resolve X s? fallback).1 := by
  have hK := hc.family
  have hP := hc.plain hi
  have hkeeps := keeps_of_isAssignableFrom hK hA hB hne hcomparable
  have hsound := (sound_new role reports).run hK before hbefore
  have hclaimed : Claimed c.Known ((new role reports).run before).1 :=
    Claimed.run hK before (sound_new role reports) nofun hbefore
  simp only [List.append_assoc, run_append]
  have hfirst := hsound.run hK [.registerInstance A e, .registerInstance B e'] fun q hq => by
    simp only [List.mem_cons, List.not_mem_nil, or_false] at hq
    rcases hq with rfl | rfl
    · exact hA
    · exact hB
  rcases exchanged_registrations hK hP hA hB hkeeps hne hsound hclaimed e e' with hsame | horder
  · rw [hsame]
  · have hlast := horder.run hK hP hA hB hkeeps after hfirst hafter
    rw [hlast.resolve hK hP hA hB hkeeps (hfirst.run hK after hafter) hX]
    rfl

/-- The sprite is chosen for the player although the drawable is registered right before it, and
the constructor for boxes, which comes last, fails for boxes of integers and is set aside. -/
theorem registrations_commute_player :
    (((new none false).run ([.registerInstance Descriptor.objectType ⟨"object", none⟩] ++
        [.registerInstance (boxed "Drawable") ⟨"drawable", none⟩,
          .registerInstance (boxed "Sprite") ⟨"sprite", none⟩] ++
        [.registerGeneric boxDefinition (labelling "box" ["Int32"])])).1.resolve (boxed "Player")
      (none : Option Unit) Label.fallback).1.extension.text = "sprite" := by
  have hdrawable : boxes.Known (boxed "Drawable") := known_boxed (by decide)
  have hsprite : boxes.Known (boxed "Sprite") := known_boxed (by decide)
  have hplayer : boxes.Known (boxed "Player") := known_boxed (by decide)
  have hobject : ∀ q ∈ [Request.registerInstance Descriptor.objectType ⟨"object", none⟩],
      Request.Within (ε := Label) (σ := Unit) boxes.Known q := by
    intro q hq
    rw [List.mem_singleton.mp hq]
    exact orderly_boxes.tidy.object
  rw [registrations_commute orderly_boxes implementsInterfaces_boxes none false hobject
    (fun q hq => by rw [List.mem_singleton.mp hq]; trivial) hdrawable hsprite (by decide +kernel)
    (.inl (by decide +kernel)) ⟨"drawable", none⟩ ⟨"sprite", none⟩ hplayer none Label.fallback]
  decide +kernel

end ValueText.Factory
