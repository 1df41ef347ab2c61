/-
  ValueText.Proofs.Registry.Subscriptions — what subscribers hear.

  Who subscribes to a type gets the answer of that moment.  A later registration is only
  compared with what the subscriber has, and is delivered if it overrides that.  This is
  as good as resolving the type again, as long as constructors that fail do not change the
  answer: nobody tells the subscriber of them.

  Main results:

    • `Current.step`         a request keeps a subscriber up to date if and only if it
                             spares the type;
    • `subscriber_current`   the same for all later requests: the last answer that a
                             subscriber got is then the one that the type has now.

  The second comes with a subscriber who keeps an answer whose constructor was replaced by
  one that fails.
-/
import ValueText.Proofs.Registry.Registration
import ValueText.Proofs.Types.Orderly
import ValueText.Registry.Label

namespace ValueText

/-- The two answers name the same registration, and have the same extension if there is one. -/
def Resolved.Agrees {ε : Type} (r now : Resolved ε) : Prop :=
  r.registeredType? = now.registeredType? ∧ r.isGeneric = now.isGeneric ∧
    (r.isFallback = false → r.extension = now.extension)

namespace Factory

open Descriptor (Family Plain)

variable {ε σ : Type} {K : Descriptor → Prop} {f f' : Factory ε σ} {X : Descriptor}
  {r : Resolved ε}

/-! ## §1. Resolving what is in sync. -/

/-- An answer that is in sync is what a resolution finds at once. -/
theorem resolve_of_inSync (hK : Family K) (hf : Sound K f) (hX : K X) (hr : InSync f X r)
    (fallback : Descriptor → ε) : (f.resolve X none fallback).1 = match r.source with
      | none => ⟨fallback X, none⟩
      | some c => ⟨r.extension, some c⟩ := by
  have hsource := hr.source
  rw [leader?_eq] at hsource
  unfold resolve find lookup
  cases hw : f.winner? X with
  | none =>
      rw [hw] at hsource
      rw [show r.source = none from hsource]
  | some x =>
      rw [hw] at hsource
      have hx := winner?_mem hw
      have hsupplied := (supplied?_of_mem hf hx).symm.trans (hr.extension _ hsource)
      rw [show r.source = some x.claim from hsource]
      obtain ⟨claim, n, supply⟩ := x
      cases supply with
      | ready e =>
          cases hsupplied
          rfl
      | toBuild g c =>
          -- The constructor is run again, or what it made is found; it makes the same.
          obtain ⟨d, hd, hcandidate⟩ := mem_candidates.mp hx
          cases hcandidate with
          | @generic g r' hg hr' hfailed =>
          have hvalue := (obtained hK hf hr' (hK.mem_chain hX hd)).value.trans hsupplied
          dsimp only
          generalize f.obtain g.key r'.constructor d = out at hvalue
          obtain ⟨value, f₁, ns⟩ := out
          cases hvalue
          rfl

theorem agrees_resolve (hK : Family K) (hf : Sound K f) (hX : K X) (hr : InSync f X r)
    (fallback : Descriptor → ε) : r.Agrees (f.resolve X none fallback).1 := by
  rw [resolve_of_inSync hK hf hX hr]
  cases hsource : r.source with
  | none =>
      unfold Resolved.Agrees Resolved.registeredType? Resolved.isGeneric Resolved.isFallback
      rw [hsource]
      exact ⟨rfl, rfl, nofun⟩
  | some c =>
      unfold Resolved.Agrees Resolved.registeredType? Resolved.isGeneric
      rw [hsource]
      exact ⟨rfl, rfl, fun _ => rfl⟩

/-! ## §2. Requests that spare a type. -/

section

variable [Extension ε]

/-- Who subscribes with the request. -/
def Request.subscriber? : Request ε σ → Option σ
  | .resolve _ s? _ => s?
  | _ => none

/-- Constructors that are set aside do not change the answer for the type.  Resolutions set them
aside, and registrations do if the constructor fails for the first instance of its definition. -/
def Spares (X : Descriptor) (f : Factory ε σ) : Request ε σ → Prop
  | .resolve Y s? fallback => SameAnswer X f (f.step (.resolve Y s? fallback)).1
  | .registerGeneric g c => f.checkGeneric g c = .ok () → ∀ d, closedIn? g.key X = some d →
      (g.key, d.key) ∈ (f.step (.registerGeneric g c)).1.failed →
        SameAnswer X f (f.step (.registerGeneric g c)).1
  | _ => True

theorem spares_of_failed_eq_nil {g : Descriptor} {c : Constructor ε}
    (h : (f.step (.registerGeneric g c)).1.failed = []) : Spares X f (.registerGeneric g c) := by
  intro _ d _ hmem
  rw [h] at hmem
  cases hmem

/-- Each of several requests spares the type. -/
def Steady (X : Descriptor) : Factory ε σ → List (Request ε σ) → Prop
  | _, [] => True
  | f, q :: qs => Spares X f q ∧ Steady X (f.step q).1 qs

end

/-! ## §3. One request. -/

theorem InSync.withSubscriptions (hr : InSync f X r) (t : Table TypeKey (List (Subscription σ))) :
    InSync { f with subscriptions := t } X r := ⟨hr.source, hr.extension⟩

variable [DecidableEq σ] {s : σ}

/-- The subscriber has subscribed to the type once, and its answer is in sync. -/
structure Current (f : Factory ε σ) (X : Descriptor) (s : σ) (r : Resolved ε) : Prop where
  subscribed : ofSubscriber s f.subscribers = [⟨X, r.source, s⟩]
  inSync : InSync f X r

/-- The last answer that the subscriber got, if it had `r` before. -/
def lastAnswer (s : σ) (r : Resolved ε) (ns : List (Notice ε σ)) : Resolved ε :=
  (deliveries s ns).getLast?.getD r

theorem lastAnswer_append (r : Resolved ε) (ns ms : List (Notice ε σ)) :
    lastAnswer s r (ns ++ ms) = lastAnswer s (lastAnswer s r ns) ms := by
  unfold lastAnswer
  rw [deliveries_append, List.getLast?_append]
  cases (deliveries s ms).getLast? with
  | none => rfl
  | some r' => rfl

/-- The subscriber had `r`, and what it has after the notices is current. -/
def Updated (f' : Factory ε σ) (X : Descriptor) (s : σ) (r : Resolved ε)
    (ns : List (Notice ε σ)) : Prop :=
  Current f' X s (lastAnswer s r ns)

theorem updated_of_silent {ns : List (Notice ε σ)} (h : Current f' X s r)
    (hns : deliveries s ns = []) : Updated f' X s r ns := by
  unfold Updated lastAnswer
  rw [hns]
  exact h

theorem updated_of_delivered {ns : List (Notice ε σ)} {r' : Resolved ε} (h : Current f' X s r')
    (hns : deliveries s ns = [r']) : Updated f' X s r ns := by
  unfold Updated lastAnswer
  rw [hns]
  exact h

theorem ofSubscriber_subscribe (f : Factory ε σ) (Y : Descriptor) (r : Resolved ε) {t : σ}
    (ht : t ≠ s) : ofSubscriber s (f.subscribe Y r t).subscribers = ofSubscriber s f.subscribers := by
  obtain ⟨as, bs, hbefore, hafter⟩ := f.subscribers_subscribe Y r t
  rw [hbefore, hafter]
  unfold ofSubscriber
  rw [List.filter_append, List.filter_append, List.filter_cons, if_neg (by simpa using ht)]

/-- A type that is resolved, for somebody else if it is for a subscriber. -/
theorem Current.resolve (hK : Family K) (hf : Sound K f) (h : Current f X s r) {Y : Descriptor}
    (hY : K Y) {s? : Option σ} (hs : s? ≠ some s) (fallback : Descriptor → ε) :
    Updated (f.resolve Y s? fallback).2.1 X s r (f.resolve Y s? fallback).2.2 ↔
      SameAnswer X f (f.resolve Y s? fallback).2.1 := by
  obtain ⟨r₁, f₁, ns, -, -, hworked, hsilent, heq⟩ := inSync_resolve hK hf hY s? fallback
  -- The subscriber hears nothing of it.
  have hleft : ofSubscriber s (f.resolve Y s? fallback).2.1.subscribers = [⟨X, r.source, s⟩] ∧
      deliveries s (f.resolve Y s? fallback).2.2 = [] := by
    rw [heq]
    cases s? with
    | none =>
        refine ⟨?_, hsilent.deliveries s⟩
        dsimp only
        rw [hworked.subscribers]
        exact h.subscribed
    | some t =>
        have ht : t ≠ s := fun he => hs (congrArg some he)
        dsimp only
        rw [ofSubscriber_subscribe f₁ Y r₁ ht, hworked.subscribers, deliveries_append,
          hsilent.deliveries s]
        exact ⟨h.subscribed, by simp [deliveries, ht]⟩
  refine ⟨fun hupdated => ?_, fun hsame => updated_of_silent ⟨hleft.1, h.inSync.same hsame⟩ hleft.2⟩
  unfold Updated lastAnswer at hupdated
  rw [hleft.2] at hupdated
  exact h.inSync.sameAnswer hupdated.inSync

/-- What the visits of a registration of a constructor bring the subscriber: the extension for
the first instance of the definition, if that overrides what it has and the constructor does not
fail, and nothing otherwise. -/
inductive Heard (f' : Factory ε σ) (definition : TypeKey) (X : Descriptor) (s : σ) (r : Resolved ε)
    (ns : List (Notice ε σ)) : Prop
  | given (d : Descriptor) (hclosed : closedIn? definition X = some d)
      (hfailed : (definition, d.key) ∉ f'.failed) (hc : Claim.overrides ⟨d, true⟩ r.source = true)
      (e : ε) (hsupplied : f'.supplied? ⟨d, true⟩ = some e)
      (hsub : ofSubscriber s f'.subscribers = [⟨X, some ⟨d, true⟩, s⟩])
      (hdel : deliveries s ns = [⟨e, some ⟨d, true⟩⟩])
  | nothing (hsub : ofSubscriber s f'.subscribers = [⟨X, r.source, s⟩]) (hdel : deliveries s ns = [])
      (hc : ∀ d, closedIn? definition X = some d → (definition, d.key) ∉ f'.failed →
        Claim.overrides ⟨d, true⟩ r.source = false)

/-- A registration of a constructor, as the subscriber sees it. -/
theorem heard (hK : Family K) (hX : K X) (hf : Sound K f)
    (hsubscribed : ofSubscriber s f.subscribers = [⟨X, r.source, s⟩]) {definition : Descriptor}
    {c : Constructor ε} {ns : List (Notice ε σ)}
    (hok : f.registerGeneric definition c = .ok (f', ns)) :
    Heard f' definition.key X s r ns ∧ ∃ f₁, Sound K f₁ ∧
      Worked (· = definition.key) (f.withConstructor definition c) f₁ ∧
      f' = { f₁ with subscriptions := f'.subscriptions } := by
  obtain ⟨-, f₁, heq, hvisit⟩ := registerGeneric_eq_ok hok
  obtain ⟨hf₁, hworked⟩ : Sound K f₁ ∧
      Worked (· = definition.key) (f.withConstructor definition c) f₁ := by
    have hleft := worked_visit hK hf definition c hf.subscribed
    rwa [hvisit] at hleft
  refine ⟨?_, f₁, hf₁, hworked, heq⟩
  obtain ⟨f₂, ⟨hf₂, hworked₂⟩, hrest, hsub, hdel⟩ := visit_at
    (personal_offerGeneric definition.key c)
    (P := fun f₂ => Sound K f₂ ∧ Worked (· = definition.key) (f.withConstructor definition c) f₂)
    (R := Worked (· = definition.key)) Worked.refl (fun _ _ _ => Worked.trans) f.subscribers
    ⟨hf.withConstructor definition c, .refl _⟩ (fun f₂ hf₂ x hx => by
      obtain ⟨hsound, hworked⟩ :=
        worked_offerGeneric hK hf₂.1 (get?_withConstructor hf₂.2) (hf.subscribed x hx)
      exact ⟨⟨hsound, hf₂.2.trans hworked⟩, hworked⟩) hsubscribed
  -- `f₂` is the factory at the visit of the subscriber, `f₁` the one after all visits.
  rw [hvisit] at hsub hdel hrest
  have hfailed : f'.failed = f₁.failed := by rw [heq]
  have hr₁ := get?_withConstructor hworked
  -- What comes of running the constructor for a type of the chain, when the subscriber is visited.
  have hrun {d : Descriptor} (hclosed : closedIn? definition.key X = some d) {v : Option ε}
      {f₃ : Factory ε σ} {ms : List (Notice ε σ)}
      (hout : f₂.obtain definition.key c d = (v, f₃, ms)) :
      Obtained K f₂ definition.key c d (v, f₃, ms) ∧ deliveries s ms = [] := by
    have hobtained := obtained hK hf₂ (get?_withConstructor hworked₂)
      (hK.mem_chain hX (closedIn?_mem hclosed).1)
    have hsilent := f₂.silent_obtain definition.key c d
    dsimp only at hobtained
    rw [hout] at hobtained hsilent
    exact ⟨hobtained, hsilent.deliveries s⟩
  have hoffered := offered definition.key c f₂ ⟨X, r.source, s⟩
  generalize offerGeneric definition.key c f₂ ⟨X, r.source, s⟩ = out at hoffered hsub hdel hrest
  cases hoffered with
  | none hclosed =>
      refine .nothing hsub hdel fun d hd => ?_
      rw [hclosed] at hd
      cases hd
  | refused d hclosed hc =>
      refine .nothing hsub hdel fun d' hd _ => ?_
      rw [hclosed] at hd
      cases hd
      exact hc
  | failed d hclosed f₃ ms hc hout =>
      obtain ⟨hobtained, hsilent⟩ := hrun hclosed hout
      refine .nothing hsub (hdel.trans hsilent) fun d' hd hnot => ?_
      rw [hclosed] at hd
      cases hd
      -- The failure is still there after the other visits.
      rw [hfailed] at hnot
      exact absurd (hrest.failed _ (hobtained.failed rfl)) hnot
  | given d hclosed e f₃ ms hc hout =>
      obtain ⟨hobtained, hsilent⟩ := hrun hclosed hout
      obtain ⟨hd, g, hg, hkey⟩ := closedIn?_mem hclosed
      -- The extension is what the constructor makes, for the factory of any moment.
      have hattempt : f₁.attempt c d = .ok e := by
        rw [hworked.attempt, ← hworked₂.attempt]
        cases hvalue : f₂.attempt c d with
        | ok e' =>
            have he := hobtained.value
            rw [hvalue] at he
            cases he
            rfl
        | error err =>
            have he := hobtained.value
            rw [hvalue] at he
            cases he
      refine .given d hclosed ?_ hc e ?_ hsub ?_
      · rw [hfailed]
        exact hf₁.not_mem_failed hr₁ (hK.mem_chain hX hd) hattempt
      · have hsupplied : f'.supplied? ⟨d, true⟩ = f₁.supplied? ⟨d, true⟩ := by rw [heq]; rfl
        rw [← hkey] at hr₁
        rw [hsupplied, supplied?_generic hg hr₁, hattempt]
        rfl
      · rw [hdel, deliveries_append, hsilent]
        simp [deliveries]

/-- A constructor that is registered. -/
theorem Current.registerGeneric (hK : Family K) (hP : Plain K) (hX : K X) (hf : Sound K f)
    (h : Current f X s r) {definition : Descriptor} {c : Constructor ε} {ns : List (Notice ε σ)}
    (hok : f.registerGeneric definition c = .ok (f', ns)) :
    Updated f' X s r ns ↔ ∀ d, closedIn? definition.key X = some d →
      (definition.key, d.key) ∈ f'.failed → SameAnswer X f f' := by
  obtain ⟨hheard, f₁, hf₁, hworked, heq⟩ := heard hK hX hf h.subscribed hok
  have hfailed : f'.failed = f₁.failed := by rw [heq]
  have hsupplied : ∀ c', claimPlace? c' ≠ some (.inr definition.key) →
      f₁.supplied? c' = f.supplied? c' := by
    intro c' hc'
    rw [hworked.supplied?]
    exact supplied?_withConstructor hc'
  cases hheard with
  | given d hclosed hnot hc e he hsub hdel =>
      refine ⟨fun _ d' hd' hmem => ?_, fun _ => ?_⟩
      · rw [hclosed] at hd'
        cases hd'
        exact absurd hmem hnot
      · have hcurrent : Current f' X s ⟨e, some ⟨d, true⟩⟩ := by
          refine ⟨hsub, ?_⟩
          rw [hfailed] at hnot
          rw [heq] at he ⊢
          exact (h.inSync.overridden hK hP hX hf hf₁
            (registered_withConstructor hK hP hX hf₁ hworked hclosed hnot) hc he).withSubscriptions _
        exact updated_of_delivered hcurrent hdel
  | nothing hsub hdel hc =>
      refine ⟨fun hupdated d _ _ => ?_, fun hspares => updated_of_silent ⟨hsub, ?_⟩ hdel⟩
      · unfold Updated lastAnswer at hupdated
        rw [hdel] at hupdated
        exact h.inSync.sameAnswer hupdated.inSync
      · cases hclosed : closedIn? definition.key X with
        | none =>
            -- No type of the chain is an instance of the definition.
            rw [heq]
            exact (h.inSync.same (sameAnswer_of_untouched hf hf₁ (replaced_withConstructor hworked)
              (fun x hx => ⟨not_mem_of_closedIn?_eq_none hclosed hx,
                not_mem_of_closedIn?_eq_none hclosed hx⟩) hsupplied)).withSubscriptions _
        | some d =>
            by_cases hd : (definition.key, d.key) ∈ f'.failed
            · exact h.inSync.same (hspares d hclosed hd)
            · have hoverrides := hc d hclosed hd
              rw [hfailed] at hd
              rw [heq]
              exact (h.inSync.kept hK hP hX hf hf₁
                (registered_withConstructor hK hP hX hf₁ hworked hclosed hd) hoverrides
                hsupplied).withSubscriptions _

variable [Extension ε]

/-- An extension that is registered. -/
theorem Current.registerInstance (hK : Family K) (hP : Plain K) (hX : K X) (hf : Sound K f)
    (h : Current f X s r) {target : Descriptor} (ht : K target) {e : ε} {ns : List (Notice ε σ)}
    (hok : f.registerInstance target e = .ok (f', ns)) : Updated f' X s r ns := by
  obtain ⟨heq, hvisit⟩ := registerInstance_eq_ok hok
  have hsync := h.inSync.withExtension hK hP hX hf ht e
  obtain ⟨u, -, -, hsub, hdel⟩ := visit_at (personal_offerVisit target e) (P := fun _ => True)
    (R := fun _ _ => True) (fun _ => trivial) (fun _ _ _ _ _ => trivial) f.subscribers (t := ())
    trivial (fun _ _ _ _ => ⟨trivial, trivial⟩) h.subscribed
  rw [hvisit] at hsub hdel
  -- The subscriber is offered the extension exactly if the answer changes.
  cases hgiven : target.isAssignableFrom X && Claim.overrides ⟨target, false⟩ r.source with
  | true =>
      have hoffer : offerVisit target e u ⟨X, r.source, s⟩ = (⟨X, some ⟨target, false⟩, s⟩, (),
          [.delivered s ⟨e, some ⟨target, false⟩⟩]) := by
        dsimp only [offerVisit, offerInstance]
        rw [hgiven]
        rfl
      rw [hoffer] at hsub hdel
      rw [hgiven, if_pos rfl] at hsync
      have hcurrent : Current f' X s ⟨e, some ⟨target, false⟩⟩ := by
        refine ⟨hsub, ?_⟩
        rw [heq]
        exact hsync.withSubscriptions _
      exact updated_of_delivered hcurrent (hdel.trans (by simp [deliveries]))
  | false =>
      have hoffer : offerVisit target e u ⟨X, r.source, s⟩ =
          ((⟨X, r.source, s⟩, (), []) : Subscription σ × Unit × List (Notice ε σ)) := by
        dsimp only [offerVisit, offerInstance]
        rw [hgiven]
        rfl
      rw [hoffer] at hsub hdel
      rw [hgiven, if_neg Bool.false_ne_true] at hsync
      refine updated_of_silent ⟨hsub, ?_⟩ hdel
      rw [heq]
      exact hsync.withSubscriptions _

/-- **A request keeps a subscriber up to date if and only if it spares the type.** -/
theorem Current.step (hK : Family K) (hP : Plain K) (hX : K X) (hf : Sound K f)
    (h : Current f X s r) {q : Request ε σ} (hq : q.Within K) (hs : q.subscriber? ≠ some s)
    (hclear : q ≠ .clear) : Updated (f.step q).1 X s r (f.step q).2 ↔ Spares X f q := by
  have hnothing : Updated f X s r [] := updated_of_silent h rfl
  cases q with
  | registerInstance target e =>
      refine ⟨fun _ => trivial, fun _ => ?_⟩
      unfold Factory.step
      dsimp only
      split
      · next out hok => exact h.registerInstance hK hP hX hf hq hok
      · exact hnothing
  | registerGeneric definition c =>
      show _ ↔ (f.checkGeneric definition c = .ok () → ∀ d, closedIn? definition.key X = some d →
        (definition.key, d.key) ∈ (f.step (.registerGeneric definition c)).1.failed →
          SameAnswer X f (f.step (.registerGeneric definition c)).1)
      cases hok : f.registerGeneric definition c with
      | ok out =>
          obtain ⟨hcheck, -⟩ := registerGeneric_eq_ok hok
          have hstep : f.step (.registerGeneric definition c) = out := by
            unfold Factory.step
            dsimp only
            rw [hok]
          rw [hstep, h.registerGeneric hK hP hX hf hok]
          exact ⟨fun hspares _ => hspares, fun hspares => hspares hcheck⟩
      | error err =>
          have hstep : f.step (.registerGeneric definition c) = (f, []) := by
            unfold Factory.step
            dsimp only
            rw [hok]
          rw [hstep]
          exact ⟨fun _ _ _ _ _ => ⟨rfl, fun _ _ => rfl⟩, fun _ => hnothing⟩
  | clear => exact absurd rfl hclear
  | resolve Y s? fallback => exact h.resolve hK hf hq hs fallback

/-! ## §4. Runs. -/

/-- **Requests keep a subscriber up to date all along if and only if each spares the type.** -/
theorem steady_iff (hK : Family K) (hP : Plain K) (hX : K X) (qs : List (Request ε σ)) :
    ∀ {f : Factory ε σ} {r : Resolved ε}, Sound K f → Current f X s r →
    (∀ q ∈ qs, q.Within K ∧ q.subscriber? ≠ some s ∧ q ≠ .clear) →
    (Steady X f qs ↔ ∀ ps, ps <+: qs → Updated (f.run ps).1 X s r (f.run ps).2) := by
  induction qs with
  | nil =>
      intro f r _ h _
      refine ⟨fun _ ps hps => ?_, fun _ => trivial⟩
      rw [List.prefix_nil.mp hps]
      exact updated_of_silent h rfl
  | cons q qs ih =>
      intro f r hf h hqs
      obtain ⟨hq, hs, hclear⟩ := hqs q List.mem_cons_self
      have hstep := h.step hK hP hX hf hq hs hclear
      have hrest (hcurrent : Updated (f.step q).1 X s r (f.step q).2) :=
        ih (hf.step hK hq) hcurrent fun q' hq' => hqs q' (List.mem_cons_of_mem _ hq')
      -- After `q` the subscriber has what came with it, and the others go on from there.
      have hcons (ps : List (Request ε σ)) : Updated (f.run (q :: ps)).1 X s r (f.run (q :: ps)).2 ↔
          Updated ((f.step q).1.run ps).1 X s (lastAnswer s r (f.step q).2)
            ((f.step q).1.run ps).2 := by
        unfold Updated
        rw [run_cons, lastAnswer_append]
      constructor
      · -- Each prefix is empty or begins with `q`.
        rintro ⟨hspares, hsteady⟩ ps hps
        cases ps with
        | nil => exact updated_of_silent h rfl
        | cons p ps =>
            obtain ⟨rfl, hps'⟩ := List.cons_prefix_cons.mp hps
            exact (hcons ps).mpr ((hrest (hstep.mpr hspares)).mp hsteady ps hps')
      · intro hall
        have hcurrent := (hcons []).mp (hall [q] (List.prefix_append [q] qs))
        refine ⟨hstep.mp hcurrent, (hrest hcurrent).mpr fun ps hps => ?_⟩
        exact (hcons ps).mp (hall (q :: ps) (List.cons_prefix_cons.mpr ⟨rfl, hps⟩))

/-- Nobody subscribes in somebody else's name, and who did not subscribe hears nothing. -/
theorem unheard_step (hK : Family K) (hf : Sound K f) {q : Request ε σ} (hq : q.Within K)
    (hs : q.subscriber? ≠ some s) (h : ofSubscriber s f.subscribers = []) :
    ofSubscriber s (f.step q).1.subscribers = [] ∧ deliveries s (f.step q).2 = [] := by
  cases q with
  | registerInstance target e =>
      unfold Factory.step
      dsimp only
      split
      · next out hok =>
          obtain ⟨f', ns⟩ := out
          obtain ⟨-, hvisit⟩ := registerInstance_eq_ok hok
          have hnone := visit_other (personal_offerVisit target e) f.subscribers (t := ()) h
          rwa [hvisit] at hnone
      · exact ⟨h, rfl⟩
  | registerGeneric definition c =>
      unfold Factory.step
      dsimp only
      split
      · next out hok =>
          obtain ⟨f', ns⟩ := out
          obtain ⟨-, f₁, -, hvisit⟩ := registerGeneric_eq_ok hok
          have hnone := visit_other (personal_offerGeneric definition.key c) f.subscribers
            (t := f.withConstructor definition c) h
          rwa [hvisit] at hnone
      · exact ⟨h, rfl⟩
  | clear => exact ⟨rfl, rfl⟩
  | resolve Y s? fallback =>
      obtain ⟨r₁, f₁, ns, -, -, hworked, hsilent, heq⟩ := inSync_resolve hK hf hq s? fallback
      show ofSubscriber s (f.resolve Y s? fallback).2.1.subscribers = [] ∧
        deliveries s (f.resolve Y s? fallback).2.2 = []
      rw [heq]
      cases s? with
      | none =>
          refine ⟨?_, hsilent.deliveries s⟩
          show ofSubscriber s f₁.subscribers = []
          rw [hworked.subscribers, h]
      | some t =>
          have ht : t ≠ s := fun he => hs (congrArg some he)
          constructor
          · show ofSubscriber s (f₁.subscribe Y r₁ t).subscribers = []
            rw [ofSubscriber_subscribe f₁ Y r₁ ht, hworked.subscribers, h]
          · show deliveries s (ns ++ [.delivered t r₁]) = []
            rw [deliveries_append, hsilent.deliveries s]
            simp [deliveries, ht]

theorem ofSubscriber_run (hK : Family K) (qs : List (Request ε σ)) : ∀ {f : Factory ε σ}, Sound K f →
    (∀ q ∈ qs, q.Within K ∧ q.subscriber? ≠ some s) → ofSubscriber s f.subscribers = [] →
    ofSubscriber s (f.run qs).1.subscribers = [] := by
  induction qs with
  | nil => intro f _ _ h; exact h
  | cons q qs ih =>
      intro f hf hqs h
      obtain ⟨hq, hs⟩ := hqs q List.mem_cons_self
      exact ih (hf.step hK hq) (fun q' hq' => hqs q' (List.mem_cons_of_mem _ hq'))
        (unheard_step hK hf hq hs h).1

/-- Who subscribes gets an answer that is current. -/
theorem current_subscribe (hK : Family K) (hf : Sound K f) (hX : K X)
    (h : ofSubscriber s f.subscribers = []) (fallback : Descriptor → ε) :
    ∃ r, Current (f.step (.resolve X (some s) fallback)).1 X s r ∧
      deliveries s (f.step (.resolve X (some s) fallback)).2 = [r] := by
  obtain ⟨r, f₁, ns, hsync, -, hworked, hsilent, heq⟩ := inSync_resolve hK hf hX (some s) fallback
  have hstep : f.step (.resolve X (some s) fallback) =
      (f₁.subscribe X r s, ns ++ [.delivered s r]) := by
    show ((f.resolve X (some s) fallback).2.1, (f.resolve X (some s) fallback).2.2) = _
    rw [heq]
  rw [hstep]
  refine ⟨r, ⟨?_, hsync.withSubscriptions _⟩, ?_⟩
  · obtain ⟨as, bs, hbefore, hafter⟩ := f₁.subscribers_subscribe X r s
    rw [← hworked.subscribers, hbefore, ofSubscriber, List.filter_append, List.append_eq_nil_iff] at h
    rw [hafter, ofSubscriber, List.filter_append, List.filter_cons, if_pos (decide_eq_true rfl), h.1,
      h.2, List.nil_append]
  · rw [deliveries_append, hsilent.deliveries s]
    simp [deliveries]

/-- **A subscriber is up to date all along if and only if each later request spares the type**, and
then the last answer that it got is the one that the type has now. -/
theorem subscriber_current {c : Catalog} (hc : c.Orderly) (hi : c.ImplementsInterfaces)
    (role : Option Descriptor) (reports : Bool) {before after : List (Request ε σ)}
    (hbefore : ∀ q ∈ before, q.Within c.Known ∧ q.subscriber? ≠ some s) (hX : c.Known X)
    (hafter : ∀ q ∈ after, q.Within c.Known ∧ q.subscriber? ≠ some s ∧ q ≠ .clear)
    (fallback fallback' : Descriptor → ε) :
    let out (qs : List (Request ε σ)) :=
      (new role reports).run (before ++ .resolve X (some s) fallback :: qs)
    (Steady X (out []).1 after ↔ ∀ qs, qs <+: after →
      ∃ r, (deliveries s (out qs).2).getLast? = some r ∧ Current (out qs).1 X s r) ∧
    (Steady X (out []).1 after →
      ∃ r, (deliveries s (out after).2).getLast? = some r ∧
        r.Agrees ((out after).1.resolve X none fallback').1) := by
  intro out
  have hK := hc.family
  have hnew : Sound c.Known (new role reports : Factory ε σ) := sound_new role reports
  have hf₀ := hnew.run hK before fun q hq => (hbefore q hq).1
  have hnone := ofSubscriber_run hK before hnew hbefore rfl
  obtain ⟨r₀, hcurrent₀, hdelivered⟩ := current_subscribe hK hf₀ hX hnone fallback
  have hf₁ := hf₀.step hK (q := .resolve X (some s) fallback) hX
  -- From the subscription on, the last answer is found in the notices since then.
  have hout (qs : List (Request ε σ)) :
      (out qs).1 = ((((new role reports).run before).1.step (.resolve X (some s) fallback)).1.run
        qs).1 ∧
      (deliveries s (out qs).2).getLast? = some (lastAnswer s r₀
        ((((new role reports).run before).1.step (.resolve X (some s) fallback)).1.run qs).2) := by
    show ((new role reports).run _).1 = _ ∧ (deliveries s ((new role reports).run _).2).getLast? = _
    rw [run_append, run_cons]
    refine ⟨rfl, ?_⟩
    rw [deliveries_append, deliveries_append, hdelivered, List.getLast?_append,
      List.getLast?_append]
    unfold lastAnswer
    cases (deliveries s (run _ qs).2).getLast? with
    | none => rfl
    | some r => rfl
  -- What remains is the run from the subscription on.
  have hiff := steady_iff hK (hc.plain hi) hX after hf₁ hcurrent₀ hafter
  rw [(hout []).1, run_nil]
  refine ⟨hiff.trans (forall₂_congr fun qs _ => ?_), fun hsteady => ?_⟩
  · rw [(hout qs).1, (hout qs).2]
    exact ⟨fun h => ⟨_, rfl, h⟩, fun ⟨r, hr, h⟩ => by cases hr; exact h⟩
  · have hcurrent := hiff.mp hsteady after (List.prefix_refl after)
    refine ⟨_, (hout after).2, ?_⟩
    rw [(hout after).1]
    exact agrees_resolve hK (hf₁.run hK after fun q hq => (hafter q hq).1) hX hcurrent.inSync
      fallback'

/-! ## §5. A constructor that is replaced. -/

/-- The optional integers, an instance of the definition of optional types. -/
def optionalInteger : Descriptor :=
  ((Catalog.new Catalog.shortPaths).typeOf (.option (.int .i32))).1

/-- A constructor of labels for optional types. -/
def labelling (label : String) (rejected : List String) : Constructor Label :=
  .ofArguments none 1 (Label.build label rejected fun _ text => ⟨text, none⟩)

/-- An extension for all types, and a constructor for optional ones. -/
def labelled : List (Request Label Unit) :=
  [.registerInstance Descriptor.objectType ⟨"object", none⟩,
    .registerGeneric Catalog.nullableDefinition (labelling "first" [])]

/-- Another constructor for optional types. -/
def relabelled (rejected : List String) : List (Request Label Unit) :=
  [.registerGeneric Catalog.nullableDefinition (labelling "second" rejected)]

theorem orderly_short : (Catalog.new Catalog.shortPaths).Orderly := .new _ _

theorem implementsInterfaces_short : (Catalog.new Catalog.shortPaths).ImplementsInterfaces :=
  Catalog.implementsInterfaces_of_entries (by decide +kernel)

theorem known_optionalInteger : (Catalog.new Catalog.shortPaths).Known optionalInteger :=
  orderly_short.tidy.known_typeOf (by decide +kernel)

theorem within_labelled : ∀ q ∈ labelled, q.Within (Catalog.new Catalog.shortPaths).Known ∧
    q.subscriber? ≠ some () := by
  intro q hq
  rcases List.mem_cons.mp hq with rfl | hq
  · exact ⟨orderly_short.tidy.object, nofun⟩
  · rw [List.mem_singleton.mp hq]
    exact ⟨trivial, nofun⟩

theorem within_relabelled (rejected : List String) : ∀ q ∈ relabelled rejected,
    q.Within (Catalog.new Catalog.shortPaths).Known ∧ q.subscriber? ≠ some () ∧ q ≠ .clear := by
  intro q hq
  rw [List.mem_singleton.mp hq]
  exact ⟨trivial, nofun, nofun⟩

/-- The subscriber hears of the second constructor if it rejects nothing. -/
theorem subscriber_current_relabelled :
    let out := (new none false).run (labelled ++
      .resolve optionalInteger (some ()) Label.fallback :: relabelled [])
    ∃ r, (deliveries () out.2).getLast? = some r ∧
      r.Agrees (out.1.resolve optionalInteger none Label.fallback).1 :=
  (subscriber_current orderly_short implementsInterfaces_short none false within_labelled
    known_optionalInteger (within_relabelled []) Label.fallback Label.fallback).2
    ⟨spares_of_failed_eq_nil (by decide +kernel), trivial⟩

/-- The subscriber does not hear that the second constructor rejects integers. -/
theorem subscriber_outdated : ¬ ∀ (c : Catalog) (before after : List (Request Label Unit))
    (X : Descriptor), c.Orderly → c.ImplementsInterfaces →
    (∀ q ∈ before, q.Within c.Known ∧ q.subscriber? ≠ some ()) → c.Known X →
    (∀ q ∈ after, q.Within c.Known ∧ q.subscriber? ≠ some () ∧ q ≠ .clear) →
    let out := (new none false).run (before ++ .resolve X (some ()) Label.fallback :: after)
    ∃ r, (deliveries () out.2).getLast? = some r ∧
      r.Agrees (out.1.resolve X none Label.fallback).1 := by
  intro h
  obtain ⟨r, hlast, -, hgeneric, -⟩ := h _ labelled (relabelled ["Int32"]) optionalInteger
    orderly_short implementsInterfaces_short within_labelled known_optionalInteger
    (within_relabelled ["Int32"])
  -- The answer that was kept is generic, and the one that the type has now is not.
  have hkept := congrArg (Option.map (·.isGeneric)) hlast
  rw [Option.map_some, hgeneric] at hkept
  revert hkept
  decide +kernel

end Factory
end ValueText
