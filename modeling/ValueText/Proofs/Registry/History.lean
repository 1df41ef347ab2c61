/-
  ValueText.Proofs.Registry.History — what a factory goes through.

  A factory is used by registering, by resolving types and by clearing it.  A run is
  a list of such requests.  A registration visits all subscriptions; a subscriber who
  subscribed once is visited once.

  Main results:

    • `visit_at`    what the visits do for one subscriber;
    • `sound_run`   every factory that a run leads to is sound.
-/
import ValueText.Proofs.Registry.Resolution

namespace ValueText.Factory

open Descriptor (Family)

variable {ε σ : Type}

/-! ## §1. Requests and runs. -/

/-- What can be asked of a factory. -/
inductive Request (ε σ : Type)
  | registerInstance (target : Descriptor) (e : ε)
  | registerGeneric (definition : Descriptor) (c : Constructor ε)
  | clear
  | resolve (objectType : Descriptor) (subscriber : Option σ) (fallback : Descriptor → ε)

/-- The types that a request is about are of the family.  The definition that a constructor is
for is only compared with others. -/
def Request.Within (K : Descriptor → Prop) : Request ε σ → Prop
  | .registerInstance target _ => K target
  | .registerGeneric _ _ => True
  | .clear => True
  | .resolve objectType _ _ => K objectType

/-- What a request does.  A registration that is refused does nothing. -/
def step [Extension ε] (f : Factory ε σ) : Request ε σ → Factory ε σ × List (Notice ε σ)
  | .registerInstance target e =>
      match f.registerInstance target e with
      | .ok r => r
      | .error _ => (f, [])
  | .registerGeneric definition c =>
      match f.registerGeneric definition c with
      | .ok r => r
      | .error _ => (f, [])
  | .clear => (f.clear, [])
  | .resolve objectType subscriber fallback =>
      let (_, f, ns) := f.resolve objectType subscriber fallback
      (f, ns)

/-- What several requests do, one after the other. -/
def run [Extension ε] : Factory ε σ → List (Request ε σ) → Factory ε σ × List (Notice ε σ)
  | f, [] => (f, [])
  | f, q :: qs =>
      let (f, ns) := f.step q
      let (f, ms) := run f qs
      (f, ns ++ ms)

section

variable [Extension ε]

theorem run_nil (f : Factory ε σ) : f.run [] = (f, []) := rfl

theorem run_cons (f : Factory ε σ) (q : Request ε σ) (qs : List (Request ε σ)) :
    f.run (q :: qs) = (((f.step q).1.run qs).1, (f.step q).2 ++ ((f.step q).1.run qs).2) := rfl

theorem run_append (qs rs : List (Request ε σ)) : ∀ f : Factory ε σ,
    f.run (qs ++ rs) = (((f.run qs).1.run rs).1, (f.run qs).2 ++ ((f.run qs).1.run rs).2) := by
  induction qs with
  | nil => intro f; rfl
  | cons q qs ih =>
      intro f
      rw [List.cons_append, run_cons, ih, run_cons]
      simp only [List.append_assoc]

end

/-- The factory before anything is registered. -/
def new (role : Option Descriptor) (reportsFailures : Bool) : Factory ε σ :=
  { role := role, reportsFailures := reportsFailures }

/-! ## §2. Visiting subscriptions. -/

section

variable {τ : Type} {act : τ → Subscription σ → Subscription σ × τ × List (Notice ε σ)}

theorem visit_append (xs ys : List (Subscription σ)) : ∀ t : τ,
    visit act t (xs ++ ys) =
      ((visit act t xs).1 ++ (visit act (visit act t xs).2.1 ys).1,
        (visit act (visit act t xs).2.1 ys).2.1,
        (visit act t xs).2.2 ++ (visit act (visit act t xs).2.1 ys).2.2) := by
  induction xs with
  | nil => intro t; rfl
  | cons x xs ih =>
      intro t
      simp only [List.cons_append, visit, ih, List.append_assoc]

/-- The grouping by types does not matter. -/
theorem visitAll_eq (es : List (TypeKey × List (Subscription σ))) : ∀ t : τ,
    visit act t (es.flatMap (·.2)) = ((visitAll act t es).1.flatMap (·.2), (visitAll act t es).2) := by
  induction es with
  | nil => intro t; rfl
  | cons e es ih =>
      intro t
      obtain ⟨k, xs⟩ := e
      simp only [List.flatMap_cons, visit_append, visitAll, ih]

/-- What is left of a subscription was made of one that was there. -/
theorem mem_visit (xs : List (Subscription σ)) : ∀ {t : τ} {y : Subscription σ},
    y ∈ (visit act t xs).1 → ∃ x ∈ xs, ∃ t', y = (act t' x).1 := by
  induction xs with
  | nil => intro t y h; cases h
  | cons x xs ih =>
      intro t y h
      rcases List.mem_cons.mp h with rfl | h
      · exact ⟨x, List.mem_cons_self, t, rfl⟩
      · obtain ⟨x', hx', t', rfl⟩ := ih h
        exact ⟨x', List.mem_cons_of_mem _ hx', t', rfl⟩

/-- What each visit keeps, all of them keep. -/
theorem visit_keeps {P : τ → Prop} (xs : List (Subscription σ)) : ∀ {t : τ}, P t →
    (∀ t, P t → ∀ x ∈ xs, P (act t x).2.1) → P (visit act t xs).2.1 := by
  induction xs with
  | nil => intro t ht _; exact ht
  | cons x xs ih =>
      intro t ht h
      exact ih (h t ht x List.mem_cons_self) fun t ht y hy => h t ht y (List.mem_cons_of_mem _ hy)

variable [DecidableEq σ] {s : σ}

/-- The subscriptions of one subscriber. -/
def ofSubscriber (s : σ) (xs : List (Subscription σ)) : List (Subscription σ) :=
  xs.filter fun x => x.subscriber = s

/-- A visit concerns nobody but the subscriber. -/
structure Personal (act : τ → Subscription σ → Subscription σ × τ × List (Notice ε σ)) : Prop where
  subscriber : ∀ t x, (act t x).1.subscriber = x.subscriber
  deliveries : ∀ t x s, x.subscriber ≠ s → deliveries s (act t x).2.2 = []

theorem visit_other (hact : Personal act) (xs : List (Subscription σ)) : ∀ {t : τ},
    ofSubscriber s xs = [] →
      ofSubscriber s (visit act t xs).1 = [] ∧ deliveries s (visit act t xs).2.2 = [] := by
  induction xs with
  | nil => intro t _; exact ⟨rfl, rfl⟩
  | cons x xs ih =>
      intro t h
      have hx : x.subscriber ≠ s := by
        intro he
        exact List.filter_eq_nil_iff.mp h x List.mem_cons_self (decide_eq_true he)
      have hxs : ofSubscriber s xs = [] := by
        rwa [ofSubscriber, List.filter_cons, if_neg (by simpa using hx)] at h
      obtain ⟨hrest, hnone⟩ := ih (t := (act t x).2.1) hxs
      constructor
      · show ofSubscriber s ((act t x).1 :: (visit act (act t x).2.1 xs).1) = []
        rw [ofSubscriber, List.filter_cons, if_neg (by simpa [hact.subscriber] using hx)]
        exact hrest
      · show deliveries s ((act t x).2.2 ++ (visit act (act t x).2.1 xs).2.2) = []
        rw [deliveries_append, hact.deliveries t x s hx, hnone]
        rfl

/-- **A subscriber who subscribed once is visited once.** -/
theorem visit_at (hact : Personal act) {P : τ → Prop} {R : τ → τ → Prop} (hrefl : ∀ t, R t t)
    (htrans : ∀ t₁ t₂ t₃, R t₁ t₂ → R t₂ t₃ → R t₁ t₃) {x : Subscription σ}
    (xs : List (Subscription σ)) : ∀ {t : τ}, P t →
    (∀ t, P t → ∀ y ∈ xs, P (act t y).2.1 ∧ R t (act t y).2.1) → ofSubscriber s xs = [x] →
    ∃ t₁, P t₁ ∧ R (act t₁ x).2.1 (visit act t xs).2.1 ∧
      ofSubscriber s (visit act t xs).1 = [(act t₁ x).1] ∧
      deliveries s (visit act t xs).2.2 = deliveries s (act t₁ x).2.2 := by
  induction xs with
  | nil => intro t _ _ h; cases h
  | cons y xs ih =>
      intro t ht h hx
      have hrest : ∀ t, P t → ∀ z ∈ xs, P (act t z).2.1 ∧ R t (act t z).2.1 :=
        fun t ht z hz => h t ht z (List.mem_cons_of_mem _ hz)
      have hy := (h t ht y List.mem_cons_self).1
      by_cases hs : y.subscriber = s
      · -- This is the one; nobody else is visited for `s`.
        rw [ofSubscriber, List.filter_cons, if_pos (decide_eq_true hs)] at hx
        injection hx with hyx hxs
        subst hyx
        obtain ⟨hnil, hnone⟩ := visit_other (t := (act t y).2.1) hact xs hxs
        refine ⟨t, ht, ?_, ?_, ?_⟩
        · show R (act t y).2.1 (visit act (act t y).2.1 xs).2.1
          exact visit_keeps (P := fun t' => P t' ∧ R (act t y).2.1 t') xs ⟨hy, hrefl _⟩
            (fun t' ht' z hz => ⟨(hrest t' ht'.1 z hz).1,
              htrans _ _ _ ht'.2 (hrest t' ht'.1 z hz).2⟩) |>.2
        · show ofSubscriber s ((act t y).1 :: (visit act (act t y).2.1 xs).1) = [(act t y).1]
          rw [ofSubscriber, List.filter_cons, if_pos (by simpa [hact.subscriber] using hs)]
          exact congrArg _ hnil
        · show deliveries s ((act t y).2.2 ++ (visit act (act t y).2.1 xs).2.2) = _
          rw [deliveries_append, hnone, List.append_nil]
      · -- Somebody else is visited first, and `P` holds for what is passed on.
        rw [ofSubscriber, List.filter_cons, if_neg (by simpa using hs)] at hx
        obtain ⟨t₁, ht₁, hR, hsub, hdel⟩ := ih hy hrest hx
        refine ⟨t₁, ht₁, hR, ?_, ?_⟩
        · show ofSubscriber s ((act t y).1 :: (visit act (act t y).2.1 xs).1) = _
          rw [ofSubscriber, List.filter_cons, if_neg (by simpa [hact.subscriber] using hs)]
          exact hsub
        · show deliveries s ((act t y).2.2 ++ (visit act (act t y).2.1 xs).2.2) = _
          rw [deliveries_append, hact.deliveries t y s hs, List.nil_append]
          exact hdel

end

/-! ## §3. Registrations. -/

variable {K : Descriptor → Prop} {f : Factory ε σ} {X : Descriptor}

theorem find?_filter (q : TypeKey × TypeKey → Bool) (k : TypeKey × TypeKey) :
    ∀ es : List ((TypeKey × TypeKey) × ε),
      Table.find? k (es.filter fun e => q e.1) = if q k then Table.find? k es else none := by
  intro es
  induction es with
  | nil =>
      show none = if q k then none else none
      split <;> rfl
  | cons e es ih =>
      obtain ⟨k', v⟩ := e
      rw [List.filter_cons]
      by_cases hkey : k' = k
      · subst hkey
        cases hq : q k' with
        | true => simp [Table.find?]
        | false => simp [hq, ih]
      · cases hq : q k' with
        | true => simp [Table.find?, hkey, ih]
        | false => simp [Table.find?, hkey, ih]

theorem Sound.withSubscriptions (hf : Sound K f) {t : Table TypeKey (List (Subscription σ))}
    (h : ∀ x ∈ t.entries.flatMap (·.2), K x.objectType) : Sound K { f with subscriptions := t } :=
  ⟨hf.instance_, hf.numbered, hf.made, hf.failed, h⟩

/-- The factory with one more extension. -/
def withExtension (f : Factory ε σ) (target : Descriptor) (e : ε) : Factory ε σ :=
  { f with
    lastSequence := f.lastSequence + 1
    instances := f.instances.set target.key ⟨target, e, f.lastSequence + 1⟩ }

theorem number?_withExtension (f : Factory ε σ) (target : Descriptor) (e : ε) :
    (f.withExtension target e).number? =
      fun b => if Sum.inl target.key = b then some (f.lastSequence + 1) else f.number? b := by
  funext b
  cases b with
  | inl k =>
      show ((f.instances.set target.key _).get? k).map (·.sequence) = _
      rw [Table.get?_set]
      by_cases h : target.key = k
      · rw [if_pos h, if_pos (congrArg Sum.inl h)]
        rfl
      · rw [if_neg h, if_neg fun he => h (Sum.inl.inj he)]
        rfl
  | inr k => rfl

theorem Sound.withExtension (hf : Sound K f) {target : Descriptor} (ht : K target) (e : ε) :
    Sound K (f.withExtension target e) := by
  refine ⟨fun k i hi => ?_, ?_, hf.made, hf.failed, hf.subscribed⟩
  · have hi : (f.instances.set target.key ⟨target, e, f.lastSequence + 1⟩).get? k = some i := hi
    rw [Table.get?_set] at hi
    split at hi
    · next hkey => cases hi; exact ⟨hkey, ht⟩
    · exact hf.instance_ k i hi
  · rw [number?_withExtension]
    exact hf.numbered.set _

/-- The factory with one more constructor, which has not been run yet. -/
def withConstructor (f : Factory ε σ) (definition : Descriptor) (c : Constructor ε) : Factory ε σ :=
  { f with
    lastSequence := f.lastSequence + 1
    made := ⟨f.made.entries.filter fun e => e.1.1 ≠ definition.key⟩
    failed := f.failed.filter fun e => e.1 ≠ definition.key
    generics := f.generics.set definition.key ⟨definition, c, f.lastSequence + 1⟩ }

theorem generics_withConstructor (f : Factory ε σ) (definition : Descriptor) (c : Constructor ε)
    (k : TypeKey) : (f.withConstructor definition c).generics.get? k =
      if definition.key = k then some ⟨definition, c, f.lastSequence + 1⟩ else f.generics.get? k :=
  Table.get?_set _ _ _ _

theorem number?_withConstructor (f : Factory ε σ) (definition : Descriptor) (c : Constructor ε) :
    (f.withConstructor definition c).number? =
      fun b => if Sum.inr definition.key = b then some (f.lastSequence + 1) else f.number? b := by
  funext b
  cases b with
  | inl k => rfl
  | inr k =>
      show ((f.withConstructor definition c).generics.get? k).map (·.sequence) = _
      rw [generics_withConstructor]
      by_cases h : definition.key = k
      · rw [if_pos h, if_pos (congrArg Sum.inr h)]
        rfl
      · rw [if_neg h, if_neg fun he => h (Sum.inr.inj he)]
        rfl

theorem mem_failed_withConstructor {definition : Descriptor} {c : Constructor ε}
    {p : TypeKey × TypeKey} :
    p ∈ (f.withConstructor definition c).failed ↔ p ∈ f.failed ∧ p.1 ≠ definition.key := by
  show p ∈ f.failed.filter _ ↔ _
  rw [List.mem_filter, decide_eq_true_eq]

theorem Sound.withConstructor (hf : Sound K f) (definition : Descriptor) (c : Constructor ε) :
    Sound K (f.withConstructor definition c) := by
  have hother {k : TypeKey} (h : k ≠ definition.key) :
      (f.withConstructor definition c).generics.get? k = f.generics.get? k := by
    rw [generics_withConstructor, if_neg fun he => h he.symm]
  refine ⟨hf.instance_, ?_, fun g d e hd h => ?_, fun g d hd h => ?_, hf.subscribed⟩
  · rw [number?_withConstructor]
    exact hf.numbered.set _
  · -- What the old constructor made is dropped, and what the others made stays.
    have h : Table.find? (g, d.key) (f.made.entries.filter fun e => e.1.1 ≠ definition.key) =
        some e := h
    rw [find?_filter (fun p => p.1 ≠ definition.key)] at h
    split at h
    · next hg =>
        rw [hother (of_decide_eq_true hg)]
        exact hf.made g d e hd h
    · cases h
  · obtain ⟨h, hg⟩ := mem_failed_withConstructor.mp h
    rw [hother hg]
    exact hf.failed g d hd h

/-- The offer of an extension as a visit, which has nothing to pass on. -/
def offerVisit (target : Descriptor) (e : ε) (_ : Unit) (x : Subscription σ) :
    Subscription σ × Unit × List (Notice ε σ) :=
  ((offerInstance target e x).1, (), (offerInstance target e x).2)

theorem personal_offerVisit [DecidableEq σ] (target : Descriptor) (e : ε) :
    Personal (offerVisit target e : Unit → Subscription σ → _) := by
  refine ⟨fun _ x => ?_, fun _ x s hx => ?_⟩
  · dsimp only [offerVisit, offerInstance]
    split <;> rfl
  · dsimp only [offerVisit, offerInstance]
    split
    · show (List.filterMap _ [_]) = []
      simp [hx]
    · rfl

/-- What an offer of a constructor comes to: the subscriber gets the extension, or nothing
changes for it. -/
inductive Offered (definition : TypeKey) (c : Constructor ε) (f : Factory ε σ) (x : Subscription σ) :
    Subscription σ × Factory ε σ × List (Notice ε σ) → Prop
  | none (h : closedIn? definition x.objectType = none) : Offered definition c f x (x, f, [])
  | refused (d : Descriptor) (h : closedIn? definition x.objectType = some d)
      (hc : Claim.overrides ⟨d, true⟩ x.current = false) : Offered definition c f x (x, f, [])
  | failed (d : Descriptor) (h : closedIn? definition x.objectType = some d) (f' : Factory ε σ)
      (ns : List (Notice ε σ)) (hc : Claim.overrides ⟨d, true⟩ x.current = true)
      (hout : f.obtain definition c d = (Option.none, f', ns)) :
      Offered definition c f x (x, f', ns)
  | given (d : Descriptor) (h : closedIn? definition x.objectType = some d) (e : ε)
      (f' : Factory ε σ) (ns : List (Notice ε σ))
      (hc : Claim.overrides ⟨d, true⟩ x.current = true)
      (hout : f.obtain definition c d = (some e, f', ns)) :
      Offered definition c f x ({ x with current := some ⟨d, true⟩ }, f',
        ns ++ [.delivered x.subscriber ⟨e, some ⟨d, true⟩⟩])

theorem offered (definition : TypeKey) (c : Constructor ε) (f : Factory ε σ) (x : Subscription σ) :
    Offered definition c f x (offerGeneric definition c f x) := by
  unfold offerGeneric
  split
  · next h => exact .none h
  · next d h =>
      dsimp only
      split
      · next hc =>
          split
          · next f' ns hout => exact .failed d h f' ns hc hout
          · next e f' ns hout => exact .given d h e f' ns hc hout
      · next hc => exact .refused d h (Bool.eq_false_iff.mpr hc)

theorem closedIn?_mem {definition : TypeKey} {d : Descriptor} (h : closedIn? definition X = some d) :
    d ∈ X.chain ∧ ∃ g, d.definition = some g ∧ g.key = definition := by
  refine ⟨List.mem_of_find?_eq_some h, ?_⟩
  have hd := List.find?_some h
  split at hd
  · next g hg => exact ⟨g, hg, of_decide_eq_true hd⟩
  · cases hd

theorem objectType_offerVisit (target : Descriptor) (e : ε) (u : Unit) (x : Subscription σ) :
    (offerVisit target e u x).1.objectType = x.objectType := by
  dsimp only [offerVisit, offerInstance]
  split <;> rfl

theorem objectType_offerGeneric (definition : TypeKey) (c : Constructor ε) (f : Factory ε σ)
    (x : Subscription σ) : (offerGeneric definition c f x).1.objectType = x.objectType := by
  have h := offered definition c f x
  generalize offerGeneric definition c f x = out at h
  cases h <;> rfl

theorem personal_offerGeneric [DecidableEq σ] (definition : TypeKey) (c : Constructor ε) :
    Personal (offerGeneric definition c : Factory ε σ → Subscription σ → _) := by
  have hsilent {f f' : Factory ε σ} {d : Descriptor} {v : Option ε} {ns : List (Notice ε σ)}
      (h : f.obtain definition c d = (v, f', ns)) : Silent ns := by
    have := f.silent_obtain definition c d
    rwa [h] at this
  refine ⟨fun f x => ?_, fun f x s hx => ?_⟩
  · have h := offered definition c f x
    generalize offerGeneric definition c f x = out at h
    cases h <;> rfl
  · have h := offered definition c f x
    generalize offerGeneric definition c f x = out at h
    cases h with
    | none => rfl
    | refused => rfl
    | failed d h f' ns hc hout => exact (hsilent hout).deliveries s
    | given d h e f' ns hc hout =>
        rw [deliveries_append, (hsilent hout).deliveries s]
        simp [deliveries, hx]

/-- What an offer of the constructor that is registered makes of the factory. -/
theorem worked_offerGeneric (hK : Family K) (hf : Sound K f) {definition : TypeKey}
    {r : GenericEntry ε} (hr : f.generics.get? definition = some r) {x : Subscription σ}
    (hx : K x.objectType) : Sound K (offerGeneric definition r.constructor f x).2.1 ∧
      Worked (· = definition) f (offerGeneric definition r.constructor f x).2.1 := by
  have hobtained {d : Descriptor} (h : closedIn? definition x.objectType = some d) :=
    obtained hK hf hr (hK.mem_chain hx (closedIn?_mem h).1)
  have h := offered definition r.constructor f x
  generalize offerGeneric definition r.constructor f x = out at h
  cases h with
  | none => exact ⟨hf, .refl f⟩
  | refused => exact ⟨hf, .refl f⟩
  | failed d h f' ns hc hout =>
      have := hobtained h
      rw [hout] at this
      exact ⟨this.sound, this.worked⟩
  | given d h e f' ns hc hout =>
      have := hobtained h
      rw [hout] at this
      exact ⟨this.sound, this.worked⟩

/-- A registration of an extension, if it is not refused. -/
theorem registerInstance_eq_ok [Extension ε] {target : Descriptor} {e : ε} {f' : Factory ε σ}
    {ns : List (Notice ε σ)} (h : f.registerInstance target e = .ok (f', ns)) :
    f' = { f.withExtension target e with subscriptions := f'.subscriptions } ∧
      visit (offerVisit target e) () f.subscribers = (f'.subscribers, (), ns) := by
  unfold registerInstance at h
  split at h
  · cases h
  · cases h
    exact ⟨rfl, visitAll_eq _ _⟩

/-- A registration of a constructor, if it is not refused. -/
theorem registerGeneric_eq_ok {definition : Descriptor} {c : Constructor ε} {f' : Factory ε σ}
    {ns : List (Notice ε σ)} (h : f.registerGeneric definition c = .ok (f', ns)) :
    f.checkGeneric definition c = .ok () ∧ ∃ f₁ : Factory ε σ,
      f' = { f₁ with subscriptions := f'.subscriptions } ∧
      visit (offerGeneric definition.key c) (f.withConstructor definition c) f.subscribers =
        (f'.subscribers, f₁, ns) := by
  unfold registerGeneric at h
  split at h
  · cases h
  · next hcheck =>
      cases h
      refine ⟨hcheck, _, rfl, ?_⟩
      exact visitAll_eq f.subscriptions.entries (f.withConstructor definition c)

/-- The constructor is registered whatever came of its offers. -/
theorem get?_withConstructor {definition : Descriptor} {c : Constructor ε} {f' : Factory ε σ}
    (h : Worked (· = definition.key) (f.withConstructor definition c) f') :
    f'.generics.get? definition.key = some ⟨definition, c, f.lastSequence + 1⟩ := by
  rw [h.generics, generics_withConstructor, if_pos rfl]

/-- The visits of a registration leave a sound factory. -/
theorem worked_visit (hK : Family K) (hf : Sound K f) (definition : Descriptor) (c : Constructor ε)
    {xs : List (Subscription σ)} (hxs : ∀ x ∈ xs, K x.objectType) :
    let f₁ := (visit (offerGeneric definition.key c) (f.withConstructor definition c) xs).2.1
    Sound K f₁ ∧ Worked (· = definition.key) (f.withConstructor definition c) f₁ := by
  -- The constructor stays registered during the visits, so each offer runs the one that is.
  refine visit_keeps (P := fun f₁ => Sound K f₁ ∧
    Worked (· = definition.key) (f.withConstructor definition c) f₁) xs
    ⟨hf.withConstructor definition c, .refl _⟩ fun f₁ hf₁ x hx => ?_
  obtain ⟨hsound, hworked⟩ :=
    worked_offerGeneric hK hf₁.1 (get?_withConstructor hf₁.2) (hxs x hx)
  exact ⟨hsound, hf₁.2.trans hworked⟩

/-! ## §4. Sound histories. -/

/-- A new subscription comes behind the others for its type. -/
theorem subscribers_subscribe (f : Factory ε σ) (X : Descriptor) (r : Resolved ε) (s : σ) :
    ∃ as bs, f.subscribers = as ++ bs ∧
      (f.subscribe X r s).subscribers = as ++ ⟨X, r.source, s⟩ :: bs := by
  -- Induction on the entries up to the one for the type, or to the end.
  have h : ∀ es : List (TypeKey × List (Subscription σ)), ∃ as bs, es.flatMap (·.2) = as ++ bs ∧
      (Table.set.go X.key ((Table.find? X.key es).getD [] ++ [⟨X, r.source, s⟩]) es).flatMap (·.2) =
        as ++ ⟨X, r.source, s⟩ :: bs := by
    intro es
    induction es with
    | nil => exact ⟨[], [], rfl, rfl⟩
    | cons e es ih =>
        obtain ⟨k, xs⟩ := e
        unfold Table.set.go Table.find?
        by_cases hk : k = X.key
        · refine ⟨xs, es.flatMap (·.2), rfl, ?_⟩
          simp [hk]
        · obtain ⟨as, bs, h₁, h₂⟩ := ih
          refine ⟨xs ++ as, bs, ?_, ?_⟩
          · rw [List.flatMap_cons, h₁, List.append_assoc]
          · rw [if_neg hk, if_neg hk, List.flatMap_cons, h₂, List.append_assoc]
  exact h f.subscriptions.entries

theorem sound_clear (f : Factory ε σ) : Sound K f.clear := by
  refine ⟨nofun, ⟨fun a n h => ?_, fun a b n h => ?_⟩, nofun, nofun, nofun⟩
  · cases a <;> cases h
  · cases a <;> cases h

theorem sound_new (role : Option Descriptor) (reportsFailures : Bool) :
    Sound K (new role reportsFailures : Factory ε σ) := sound_clear (new role reportsFailures)

variable [Extension ε]

/-- **A request leaves a sound factory.** -/
theorem Sound.step (hK : Family K) (hf : Sound K f) {q : Request ε σ} (hq : q.Within K) :
    Sound K (f.step q).1 := by
  cases q with
  | registerInstance target e =>
      show Sound K (match f.registerInstance target e with | .ok r => r | .error _ => (f, [])).1
      split
      · next r h =>
          obtain ⟨f', ns⟩ := r
          obtain ⟨heq, hvisit⟩ := registerInstance_eq_ok h
          show Sound K f'
          rw [heq]
          refine (hf.withExtension hq e).withSubscriptions fun x hx => ?_
          have hx : x ∈ (visit (offerVisit target e) () f.subscribers).1 := by
            rw [hvisit]
            exact hx
          obtain ⟨y, hy, t, rfl⟩ := mem_visit _ hx
          rw [objectType_offerVisit]
          exact hf.subscribed y hy
      · exact hf
  | registerGeneric definition c =>
      show Sound K (match f.registerGeneric definition c with | .ok r => r | .error _ => (f, [])).1
      split
      · next r h =>
          obtain ⟨f', ns⟩ := r
          obtain ⟨-, f₁, heq, hvisit⟩ := registerGeneric_eq_ok h
          have hworked := worked_visit hK hf definition c hf.subscribed
          rw [hvisit] at hworked
          show Sound K f'
          rw [heq]
          apply hworked.1.withSubscriptions
          intro x hx
          have hx : x ∈ (visit (offerGeneric definition.key c) (f.withConstructor definition c)
              f.subscribers).1 := by
            rw [hvisit]
            exact hx
          obtain ⟨y, hy, f₂, rfl⟩ := mem_visit _ hx
          rw [objectType_offerGeneric]
          exact hf.subscribed y hy
      · exact hf
  | clear => exact f.sound_clear
  | resolve Y s? fallback =>
      obtain ⟨r, f₁, ns, -, hsound, -, -, heq⟩ := inSync_resolve hK hf hq s? fallback
      show Sound K (f.resolve Y s? fallback).2.1
      rw [heq]
      cases s? with
      | none => exact hsound
      | some s =>
          -- Only the new subscription was not there before.
          obtain ⟨as, bs, hbefore, hafter⟩ := f₁.subscribers_subscribe Y r s
          apply hsound.withSubscriptions
          intro x hx
          have hx : x ∈ as ++ ⟨Y, r.source, s⟩ :: bs := by rw [← hafter]; exact hx
          rcases List.mem_append.mp hx with hx | hx
          · exact hsound.subscribed x (by rw [hbefore]; exact List.mem_append_left _ hx)
          · rcases List.mem_cons.mp hx with rfl | hx
            · exact hq
            · exact hsound.subscribed x (by rw [hbefore]; exact List.mem_append_right _ hx)

/-- **Every factory that a run leads to is sound.** -/
theorem Sound.run (hK : Family K) (qs : List (Request ε σ)) : ∀ {f : Factory ε σ}, Sound K f →
    (∀ q ∈ qs, q.Within K) → Sound K (f.run qs).1 := by
  induction qs with
  | nil => intro f hf _; exact hf
  | cons q qs ih =>
      intro f hf hqs
      rw [run_cons]
      exact ih (hf.step hK (hqs q List.mem_cons_self)) fun q' hq' =>
        hqs q' (List.mem_cons_of_mem _ hq')

end ValueText.Factory
