/-
  ValueText.Proofs.Registry.Construction — how often a constructor is run.

  A constructor is run when it wins a look-up, and when it is registered, for every
  subscriber that would rather have its extension.  What it makes is kept, and where it
  fails, look-ups leave it out.  The subscribers of a registration are asked one after
  the other, and only what was made is remembered between them: a constructor that fails
  is run again for the next subscriber of the same closed type.

  Main results:

    • `once_lookup`   a look-up runs a constructor at most once for a closed type;
    • `runs_visit`    a registration runs it up to the first success;
    • `runs_between`  all runs from a registration to the next one for the definition.

  The last comes with a constructor that is run twice, and reported twice.
-/
import ValueText.Proofs.Registry.Accounting

namespace ValueText.Factory

variable {ε σ : Type} {f f' : Factory ε σ} {X : Descriptor} {g : TypeKey}
  {p : TypeKey × TypeKey} {c : Constructor ε} {ns : List (Notice ε σ)}

/-! ## §1. Look-ups. -/

/-- The constructor is the one that is registered for the definition, if there is one. -/
def InCharge (f : Factory ε σ) (g : TypeKey) (c : Constructor ε) : Prop :=
  ∀ r, f.generics.get? g = some r → r.constructor = c

theorem Accounted.inCharge (h : Accounted p c f ns f') (hc : f.InCharge p.1 c) :
    f'.InCharge p.1 c := by
  intro r hr
  rw [h.generics] at hr
  exact hc r hr

/-- A candidate that is ready is not for a constructor. -/
theorem ready_of_mem {x : Candidate ε} (hx : x ∈ f.candidates X) {e : ε}
    (hs : x.supply = .ready e) : x.claim.generic = false := by
  obtain ⟨d, -, hcandidate⟩ := mem_candidates.mp hx
  cases hcandidate with
  | «instance» => rfl
  | generic => cases hs

/-- **A look-up runs a constructor at most once for a closed type**, and not if it was run before;
what it answers is kept. -/
theorem once_lookup (fuel : Nat) : ∀ {f : Factory ε σ}, f.InCharge p.1 c →
    Once p c f (f.lookup fuel X).2.2 (f.lookup fuel X).2.1 ∧
      ∀ r, (f.lookup fuel X).1 = some r → IsFrom p r →
        (f.lookup fuel X).2.1.made.get? p = some r.extension := by
  -- Induction on the fuel; a constructor that fails is set aside before the look-up starts again.
  induction fuel with
  | zero =>
      intro f _
      refine ⟨.refl p c f, fun r hr => ?_⟩
      cases hr
  | succ fuel ih =>
      intro f hc
      unfold lookup
      split
      · refine ⟨.refl p c f, fun r hr => ?_⟩
        cases hr
      · next claim n e hw =>
          refine ⟨.refl p c f, fun r hr hfrom => ?_⟩
          cases hr
          obtain ⟨d, hsource, -⟩ := hfrom
          cases hsource
          cases ready_of_mem (winner?_mem hw) rfl
      · next claim n g c' hw =>
          obtain ⟨-, -, h, entry, hdef, rfl, hentry, rfl, hopen⟩ :=
            toBuild_of_mem (winner?_mem hw) rfl
          have hcharge : h.key = p.1 → entry.constructor = c :=
            fun hkey => hc entry (by rw [← hkey]; exact hentry)
          have hobtains := f.obtains h.key entry.constructor claim.target
          have honce := hobtains.once hdef hcharge hopen
          split
          · next e f₁ ns hout =>
              rw [hout] at hobtains honce
              refine ⟨honce, fun r hr hfrom => ?_⟩
              cases hr
              obtain ⟨d, hsource, hfor⟩ := hfrom
              cases hsource
              rw [← (isFor_iff hdef).mp hfor]
              exact hobtains.value.symm
          · next f₁ ns hout =>
              rw [hout] at honce
              obtain ⟨hrest, hvalue⟩ := ih (honce.inCharge hc)
              exact ⟨honce.trans hrest, hvalue⟩

/-- A delivery of what was made, and a new subscription, change nothing for the pair. -/
theorem once_subscribe (t : Table TypeKey (List (Subscription σ))) (s : σ) {r : Resolved ε}
    (hr : IsFrom p r → f.made.get? p = some r.extension) :
    Once p c f [.delivered s r] { f with subscriptions := t } := by
  refine .of_idle (.of_quiet rfl rfl rfl rfl Iff.rfl rfl rfl rfl fun s' r' hmem hfrom => ?_) rfl
  cases List.mem_singleton.mp hmem
  exact hr hfrom

theorem once_fellBack (f : Factory ε σ) (X : Descriptor) :
    Once p c f [.fellBack X] f :=
  .of_idle (.of_quiet rfl rfl rfl rfl Iff.rfl rfl rfl rfl (by simp)) rfl

/-- **A resolution runs a constructor at most once for a closed type.** -/
theorem once_resolve (hc : f.InCharge p.1 c) (X : Descriptor) (s? : Option σ)
    (fallback : Descriptor → ε) :
    Once p c f (f.resolve X s? fallback).2.2 (f.resolve X s? fallback).2.1 ∧
      (IsFrom p (f.resolve X s? fallback).1 →
        (f.resolve X s? fallback).2.1.made.get? p =
          some (f.resolve X s? fallback).1.extension) := by
  obtain ⟨honce, hvalue⟩ := once_lookup (X := X) (X.chain.length + 1) hc
  -- The answer is what was found, or the fallback.
  have hanswer : ∃ r ns, Once p c f ns (f.find X).2.1 ∧
      (IsFrom p r → (f.find X).2.1.made.get? p = some r.extension) ∧
      f.resolve X s? fallback = s?.elim (r, (f.find X).2.1, ns) fun s =>
        (r, (f.find X).2.1.subscribe X r s, ns ++ [.delivered s r]) := by
    unfold resolve find
    generalize f.lookup (X.chain.length + 1) X = out at honce hvalue ⊢
    obtain ⟨found, f₁, ns⟩ := out
    cases found with
    | none =>
        refine ⟨⟨fallback X, none⟩, ns ++ [.fellBack X], honce.trans (once_fellBack f₁ X), ?_, ?_⟩
        · rintro ⟨d, hsource, -⟩
          cases hsource
        · cases s? <;> rfl
    | some r => exact ⟨r, ns, honce, hvalue r rfl, by cases s? <;> rfl⟩
  obtain ⟨r, ns, honce, hvalue, heq⟩ := hanswer
  rw [heq]
  cases s? with
  | none => exact ⟨honce, hvalue⟩
  | some s => exact ⟨honce.trans (once_subscribe _ s hvalue), hvalue⟩

/-! ## §2. Registrations. -/

/-- The closed type of the pair, if a subscriber would rather have what its constructor makes. -/
def offer? (p : TypeKey × TypeKey) (x : Subscription σ) : Option Descriptor :=
  (closedIn? p.1 x.objectType).filter fun d =>
    d.key = p.2 && Claim.overrides ⟨d, true⟩ x.current

/-- The closed types of the pair that the subscribers make a registration ask for. -/
def offers (f : Factory ε σ) (p : TypeKey × TypeKey) : List Descriptor :=
  f.subscribers.filterMap (offer? p)

/-- The elements up to the first that does not fail. -/
def tries {α : Type} (fails : α → Bool) : List α → List α
  | [] => []
  | a :: as => if fails a then a :: tries fails as else [a]

theorem tries_eq_nil_iff {α : Type} {fails : α → Bool} {as : List α} :
    tries fails as = [] ↔ as = [] := by
  cases as with
  | nil => exact Iff.rfl
  | cons a as =>
      unfold tries
      split <;> simp

/-- There is at most one try if and only if there is nothing more to be tried, or the first try does
not fail. -/
theorem length_tries_le_one_iff {α : Type} {fails : α → Bool} {as : List α} :
    (tries fails as).length ≤ 1 ↔ as.length ≤ 1 ∨ ∃ a, as.head? = some a ∧ fails a = false := by
  cases as with
  | nil => simp [tries]
  | cons a as =>
      unfold tries
      cases hfails : fails a with
      | false => simp [hfails]
      | true =>
          have hnil : (tries fails as).length = 0 ↔ as.length = 0 := by
            rw [List.length_eq_zero_iff, List.length_eq_zero_iff, tries_eq_nil_iff]
          simp only [if_true, List.length_cons, List.head?_cons, Option.some.injEq, exists_eq_left',
            hfails, Bool.true_eq_false, or_false]
          omega

/-- **An offer of a constructor is accounted for.** -/
theorem accounted_offerGeneric {c' : Constructor ε} (hc : g = p.1 → c' = c) (f : Factory ε σ)
    (x : Subscription σ) :
    Accounted p c f (offerGeneric g c' f x).2.2 (offerGeneric g c' f x).2.1 := by
  have hoffered := offered g c' f x
  generalize offerGeneric g c' f x = out at hoffered
  cases hoffered with
  | none => exact .refl p c f
  | refused => exact .refl p c f
  | failed d hclosed f' ns hover hout =>
      obtain ⟨-, h, hdef, rfl⟩ := closedIn?_mem hclosed
      have hobtains := f.obtains h.key c' d
      rw [hout] at hobtains
      exact hobtains.accounted hdef hc
  | given d hclosed e f' ns hover hout =>
      obtain ⟨-, h, hdef, rfl⟩ := closedIn?_mem hclosed
      have hobtains := f.obtains h.key c' d
      rw [hout] at hobtains
      refine (hobtains.accounted hdef hc).trans
        (once_subscribe f'.subscriptions x.subscriber fun hfrom => ?_).toAccounted
      obtain ⟨d', hsource, hfor⟩ := hfrom
      cases hsource
      rw [← (isFor_iff hdef).mp hfor]
      exact hobtains.value.symm

/-- **The visits of a registration are accounted for.** -/
theorem accounted_visit {c' : Constructor ε} (hc : g = p.1 → c' = c) (xs : List (Subscription σ)) :
    ∀ f : Factory ε σ, Accounted p c f (visit (offerGeneric g c') f xs).2.2
      (visit (offerGeneric g c') f xs).2.1 := by
  induction xs with
  | nil => intro f; exact .refl p c f
  | cons x xs ih => intro f; exact (accounted_offerGeneric hc f x).trans (ih _)

/-- The runs that an offer leads to. -/
theorem runs_offerGeneric (p : TypeKey × TypeKey) (c : Constructor ε) (f : Factory ε σ)
    (x : Subscription σ) : runs p (offerGeneric p.1 c f x).2.2 =
      if f.made.get? p = none then (offer? p x).toList else [] := by
  have hoffered := offered p.1 c f x
  have haccounted := accounted_offerGeneric (fun _ => rfl) f x (g := p.1) (p := p) (c := c)
  generalize offerGeneric p.1 c f x = out at hoffered haccounted
  by_cases hmade : f.made.get? p = none
  · rw [if_pos hmade]
    unfold offer?
    -- The constructor is run if the offer is for the closed type.
    have hrun {v : Option ε} {f' : Factory ε σ} {ns : List (Notice ε σ)} {d : Descriptor}
        (hclosed : closedIn? p.1 x.objectType = some d)
        (hover : Claim.overrides ⟨d, true⟩ x.current = true)
        (hout : f.obtain p.1 c d = (v, f', ns)) :
        runs p ns = ((closedIn? p.1 x.objectType).filter fun d =>
          d.key = p.2 && Claim.overrides ⟨d, true⟩ x.current).toList := by
      obtain ⟨-, h, hdef, hkey⟩ := closedIn?_mem hclosed
      have hruns := (f.obtains h.key c d).runs (p := p) hdef
      rw [hkey, hout] at hruns
      have hpair : (p.1, d.key) = p ↔ d.key = p.2 := by
        rw [Prod.ext_iff]
        simp
      rw [hruns, hclosed, Option.filter_some, hover, Bool.and_true]
      by_cases hp : d.key = p.2
      · rw [if_pos ⟨hpair.mpr hp, hmade⟩, if_pos (decide_eq_true hp)]
        rfl
      · rw [if_neg fun h => hp (hpair.mp h.1), if_neg (by simpa using hp)]
        rfl
    cases hoffered with
    | none hclosed =>
        rw [hclosed]
        rfl
    | refused d hclosed hover =>
        rw [hclosed, Option.filter_some, hover, Bool.and_false]
        rfl
    | failed d hclosed f' ns hover hout => exact hrun hclosed hover hout
    | given d hclosed e f' ns hover hout =>
        rw [runs_append, hrun hclosed hover hout]
        exact List.append_nil _
  · rw [if_neg hmade]
    exact haccounted.idle hmade

/-- **A registration runs its constructor for a closed type up to the first success**, among the
subscribers that make it ask. -/
theorem runs_visit (p : TypeKey × TypeKey) (c : Constructor ε) (xs : List (Subscription σ)) :
    ∀ f : Factory ε σ, runs p (visit (offerGeneric p.1 c) f xs).2.2 =
      if f.made.get? p = none then tries (f.rejects c) (xs.filterMap (offer? p)) else [] := by
  induction xs with
  | nil =>
      intro f
      split <;> rfl
  | cons x xs ih =>
      intro f
      have haccounted := accounted_offerGeneric (fun _ => rfl) f x (g := p.1) (p := p) (c := c)
      have hrejects : (offerGeneric p.1 c f x).2.1.rejects c = f.rejects c :=
        funext haccounted.rejects
      show runs p ((offerGeneric p.1 c f x).2.2 ++
        (visit (offerGeneric p.1 c) (offerGeneric p.1 c f x).2.1 xs).2.2) = _
      rw [runs_append, ih, hrejects]
      have hruns := runs_offerGeneric p c f x
      have hmade' := haccounted.made
      rw [hruns] at hmade' ⊢
      by_cases hmade : f.made.get? p = none
      · simp only [if_pos hmade] at hmade' ⊢
        cases hoffer : offer? p x with
        | none =>
            rw [hoffer] at hmade'
            have hnone : (offerGeneric p.1 c f x).2.1.made.get? p = none := hmade'.trans hmade
            rw [if_pos hnone, List.filterMap_cons_none hoffer]
            rfl
        | some d =>
            -- The next one is only asked for if this one fails.
            rw [hoffer] at hmade'
            have hgiven : (offerGeneric p.1 c f x).2.1.made.get? p =
                (f.attempt c d).toOption := hmade'
            have hfails : f.rejects c d = (f.attempt c d).toOption.isNone := rfl
            rw [hgiven, List.filterMap_cons_some hoffer, tries, hfails]
            cases (f.attempt c d).toOption with
            | none => simp
            | some e => simp
      · simp only [if_neg hmade] at hmade' ⊢
        have hkept : (offerGeneric p.1 c f x).2.1.made.get? p = f.made.get? p := hmade'
        rw [hkept, if_neg hmade]
        rfl

/-- A registration for another definition does not run the constructor. -/
theorem runs_visit_other (hg : g ≠ p.1) (c' : Constructor ε) (xs : List (Subscription σ)) :
    ∀ f : Factory ε σ, runs p (visit (offerGeneric g c') f xs).2.2 = [] := by
  have hoffer (f : Factory ε σ) (x : Subscription σ) : runs p (offerGeneric g c' f x).2.2 = [] := by
    have hobtain {d : Descriptor} (hclosed : closedIn? g x.objectType = some d) :
        runs p (f.obtain g c' d).2.2 = [] := by
      obtain ⟨-, h, hdef, rfl⟩ := closedIn?_mem hclosed
      rw [(f.obtains h.key c' d).runs hdef, if_neg fun h => hg (congrArg Prod.fst h.1)]
    have hoffered := offered g c' f x
    generalize offerGeneric g c' f x = out at hoffered
    cases hoffered with
    | none => rfl
    | refused => rfl
    | failed d hclosed f' ns hover hout =>
        have hruns := hobtain hclosed
        rwa [hout] at hruns
    | given d hclosed e f' ns hover hout =>
        have hruns := hobtain hclosed
        rw [hout] at hruns
        rw [runs_append, hruns]
        rfl
  induction xs with
  | nil => intro f; rfl
  | cons x xs ih =>
      intro f
      show runs p ((offerGeneric g c' f x).2.2 ++
        (visit (offerGeneric g c') (offerGeneric g c' f x).2.1 xs).2.2) = []
      rw [runs_append, hoffer, ih]
      rfl

/-- The offers of an extension for a type are not those of a constructor. -/
theorem once_visit_offerVisit (target : Descriptor) (e : ε) (xs : List (Subscription σ))
    (f : Factory ε σ) : Once p c f (visit (offerVisit target e) () xs).2.2 f := by
  induction xs with
  | nil => exact .refl p c f
  | cons x xs ih =>
      have hoffer : Once p c f (offerVisit target e () x).2.2 f := by
        unfold offerVisit offerInstance
        dsimp only
        split
        · refine once_subscribe f.subscriptions x.subscriber fun hfrom => ?_
          obtain ⟨d, hsource, -⟩ := hfrom
          cases hsource
        · exact .refl p c f
      exact hoffer.trans ih

/-! ## §3. Requests. -/

/-- The request does not end the time of the constructor for a definition: it does not clear, and
registers no other one. -/
def Request.Leaves (f : Factory ε σ) (g : TypeKey) : Request ε σ → Prop
  | .clear => False
  | .registerGeneric definition c => definition.key = g → f.checkGeneric definition c ≠ .ok ()
  | _ => True

theorem Request.Leaves.of_role (h : f'.role = f.role) {q : Request ε σ} (hq : q.Leaves f g) :
    q.Leaves f' g := by
  cases q with
  | registerGeneric definition c =>
      intro hkey hok
      apply hq hkey
      unfold checkGeneric at hok ⊢
      rwa [← h]
  | registerInstance => trivial
  | clear => exact hq
  | resolve => trivial

/-- What is returned to who makes a request. -/
def answers [Extension ε] (f : Factory ε σ) : Request ε σ → List (Resolved ε)
  | .resolve X s? fallback => [(f.resolve X s? fallback).1]
  | _ => []

/-- What subscribers get. -/
def deliveredIn (ns : List (Notice ε σ)) : List (Resolved ε) :=
  ns.filterMap fun
    | .delivered _ r => some r
    | _ => none

theorem mem_deliveredIn {r : Resolved ε} :
    r ∈ deliveredIn ns ↔ ∃ s, Notice.delivered s r ∈ ns := by
  unfold deliveredIn
  rw [List.mem_filterMap]
  constructor
  · rintro ⟨n, hn, hr⟩
    cases n with
    | delivered s r' =>
        cases hr
        exact ⟨s, hn⟩
    | built => cases hr
    | failed => cases hr
    | fellBack => cases hr
  · rintro ⟨s, hs⟩
    exact ⟨_, hs, rfl⟩

section

variable [Extension ε]

/-- All answers and deliveries of several requests. -/
def handedOut : Factory ε σ → List (Request ε σ) → List (Resolved ε)
  | _, [] => []
  | f, q :: qs => f.answers q ++ deliveredIn (f.step q).2 ++ handedOut (f.step q).1 qs

/-- **A request runs a constructor at most once for a closed type**, unless it registers another
one for the definition. -/
theorem once_step (hc : f.InCharge p.1 c) {q : Request ε σ} (hq : q.Leaves f p.1) :
    Once p c f (f.step q).2 (f.step q).1 ∧
      ∀ r ∈ f.answers q, IsFrom p r → (f.step q).1.made.get? p = some r.extension := by
  cases q with
  | registerInstance target e =>
      refine ⟨?_, nofun⟩
      unfold step
      dsimp only
      split
      · next out hok =>
          obtain ⟨f', ns⟩ := out
          obtain ⟨heq, hvisit⟩ := registerInstance_eq_ok hok
          have honce := once_visit_offerVisit (p := p) (c := c) target e f.subscribers f'
          rw [hvisit] at honce
          have hquiet : Once p c f [] f' := by
            rw [heq]
            exact .of_idle (.of_quiet rfl rfl rfl rfl Iff.rfl rfl rfl rfl nofun) rfl
          exact hquiet.trans honce
      · exact .refl p c f
  | registerGeneric definition c' =>
      refine ⟨?_, nofun⟩
      unfold step
      dsimp only
      split
      · next out hok =>
          obtain ⟨f', ns⟩ := out
          obtain ⟨hcheck, f₁, heq, hvisit⟩ := registerGeneric_eq_ok hok
          have hkey : definition.key ≠ p.1 := fun hkey => hq hkey hcheck
          -- What is kept for other definitions stays.
          have hbefore : Accounted p c f [] (f.withConstructor definition c') := by
            refine .of_quiet rfl rfl ?_ ?_ ?_ rfl rfl rfl nofun
            · rw [generics_withConstructor, if_neg hkey]
            · show Table.find? p (f.made.entries.filter fun e => e.1.1 ≠ definition.key) = _
              rw [find?_filter fun q => q.1 ≠ definition.key, if_pos (decide_eq_true hkey.symm)]
              rfl
            · rw [mem_failed_withConstructor]
              exact and_iff_left hkey.symm
          have hother : definition.key = p.1 → c' = c := fun h => absurd h hkey
          have hvisited := accounted_visit hother f.subscribers (f.withConstructor definition c')
          have hruns := runs_visit_other (p := p) hkey c' f.subscribers
            (f.withConstructor definition c')
          rw [hvisit] at hvisited hruns
          have hafter : Accounted p c f₁ [] f' := by
            rw [heq]
            exact .of_quiet rfl rfl rfl rfl Iff.rfl rfl rfl rfl nofun
          have haccounted := (hbefore.trans hvisited).trans hafter
          rw [List.append_nil] at haccounted
          exact .of_idle haccounted hruns
      · exact .refl p c f
  | clear => exact hq.elim
  | resolve X s? fallback =>
      obtain ⟨honce, hvalue⟩ := once_resolve hc X s? fallback
      refine ⟨honce, fun r hr => ?_⟩
      cases List.mem_singleton.mp hr
      exact hvalue

/-- **So do all requests together**, and what they hand out is kept. -/
theorem once_run (qs : List (Request ε σ)) : ∀ {f : Factory ε σ}, f.InCharge p.1 c →
    (∀ q ∈ qs, q.Leaves f p.1) → Once p c f (f.run qs).2 (f.run qs).1 ∧
      ∀ r ∈ f.handedOut qs, IsFrom p r → (f.run qs).1.made.get? p = some r.extension := by
  induction qs with
  | nil => intro f _ _; exact ⟨.refl p c f, nofun⟩
  | cons q qs ih =>
      intro f hc hqs
      obtain ⟨hstep, hanswers⟩ := once_step hc (hqs q List.mem_cons_self)
      obtain ⟨hrest, hlater⟩ := ih (hstep.inCharge hc)
        fun q' hq' => (hqs q' (List.mem_cons_of_mem _ hq')).of_role hstep.role
      rw [run_cons]
      refine ⟨hstep.trans hrest, fun r hr hfrom => ?_⟩
      rcases List.mem_append.mp hr with hr | hr
      · apply hrest.kept
        rcases List.mem_append.mp hr with hr | hr
        · exact hanswers r hr hfrom
        · obtain ⟨s, hs⟩ := mem_deliveredIn.mp hr
          exact hstep.delivered s r hs hfrom
      · exact hlater r hr hfrom

/-- **The runs of a constructor from its registration to the next one for the definition, or to a
clearing.**  The registration runs it for a closed type up to the first success among the
subscribers that make it ask.  Afterwards it is run once if nobody made it ask, and otherwise not at
all.  So it is run more than once if and only if several subscribers make it ask and the first run
fails.  The failures are what is reported, and what is handed out is what the last run made. -/
theorem runs_between (f : Factory ε σ) {definition : Descriptor} {c : Constructor ε}
    {f' : Factory ε σ} {ns : List (Notice ε σ)}
    (hok : f.registerGeneric definition c = .ok (f', ns)) {after : List (Request ε σ)}
    (hafter : ∀ q ∈ after, q.Leaves f definition.key) (k : TypeKey) :
    let p := (definition.key, k)
    let out := f.run (.registerGeneric definition c :: after)
    (∃ later, runs p out.2 = tries (f.rejects c) (f.offers p) ++ later ∧ later.length ≤ 1 ∧
      (f.offers p ≠ [] → later = [])) ∧
    ((runs p out.2).length ≤ 1 ↔ (f.offers p).length ≤ 1 ∨
      ∃ d, (f.offers p).head? = some d ∧ f.rejects c d = false) ∧
    reports p out.2 =
      (if f.reportsFailures then ((runs p out.2).filter (f.rejects c)).length else 0) ∧
    ∀ r ∈ f.handedOut (.registerGeneric definition c :: after), IsFrom p r →
      ∃ d, (runs p out.2).getLast? = some d ∧ f.attempt c d = .ok r.extension := by
  intro p out
  obtain ⟨-, f₁, heq, hvisit⟩ := registerGeneric_eq_ok hok
  have hstep : f.step (.registerGeneric definition c) = (f', ns) := by
    unfold step
    dsimp only
    rw [hok]
  -- The registration begins with nothing kept for the definition.
  have hnone : (f.withConstructor definition c).made.get? p = none := by
    show Table.find? p (f.made.entries.filter fun e => e.1.1 ≠ definition.key) = none
    rw [find?_filter fun q => q.1 ≠ definition.key, if_neg (by simp [p])]
  have hopen : p ∉ (f.withConstructor definition c).failed :=
    fun hmem => (mem_failed_withConstructor.mp hmem).2 rfl
  have hfirst : Accounted p c (f.withConstructor definition c) ns f' := by
    have hvisited := accounted_visit (p := p) (c := c) (fun _ => rfl) f.subscribers
      (f.withConstructor definition c) (g := definition.key)
    rw [hvisit] at hvisited
    have hquiet : Accounted p c f₁ [] f' := by
      rw [heq]
      exact .of_quiet rfl rfl rfl rfl Iff.rfl rfl rfl rfl nofun
    have haccounted := hvisited.trans hquiet
    rwa [List.append_nil] at haccounted
  have hruns : runs p ns = tries (f.rejects c) (f.offers p) := by
    have hvisited := runs_visit p c f.subscribers (f.withConstructor definition c)
    rw [hvisit, if_pos hnone] at hvisited
    exact hvisited
  have hcharge : f'.InCharge p.1 c := by
    intro r hr
    rw [hfirst.generics, generics_withConstructor, if_pos rfl] at hr
    cases hr
    rfl
  obtain ⟨hlater, hhanded⟩ := once_run after hcharge
    fun q hq => (hafter q hq).of_role hfirst.role
  have hall : Accounted p c (f.withConstructor definition c) out.2 (f'.run after).1 := by
    have htrans := hfirst.trans hlater.toAccounted
    show Accounted p c _ (f.run (.registerGeneric definition c :: after)).2 _
    rw [run_cons, hstep]
    exact htrans
  have hout : runs p out.2 = tries (f.rejects c) (f.offers p) ++ runs p (f'.run after).2 := by
    show runs p (f.run (.registerGeneric definition c :: after)).2 = _
    rw [run_cons, hstep, runs_append, hruns]
  -- If the registration ran the constructor, it is not run again.
  have hspare : f.offers p ≠ [] → runs p (f'.run after).2 = [] := by
    intro hoffers
    apply hlater.spare
    apply hfirst.spent_of_runs
    rw [hruns]
    exact tries_eq_nil_iff.not.mpr hoffers
  refine ⟨⟨_, hout, hlater.le_one, hspare⟩, ?_, hall.reports, fun r hr hfrom => ?_⟩
  · rw [hout]
    by_cases hoffers : f.offers p = []
    · rw [hoffers]
      exact iff_of_true hlater.le_one (.inl (Nat.zero_le 1))
    · rw [hspare hoffers, List.append_nil]
      exact length_tries_le_one_iff
  · have hkept : (f'.run after).1.made.get? p = some r.extension := by
      unfold handedOut at hr
      rw [hstep] at hr
      rcases List.mem_append.mp hr with hr | hr
      · obtain ⟨s, hs⟩ := mem_deliveredIn.mp hr
        exact hlater.kept (hfirst.delivered s r hs hfrom)
      · exact hhanded r hr hfrom
    have hmade := hall.made
    rw [hkept] at hmade
    cases hlast : (runs p out.2).getLast? with
    | none =>
        rw [hlast, hnone] at hmade
        cases hmade
    | some d =>
        rw [hlast] at hmade
        have hgiven : (f.attempt c d).toOption = some r.extension := hmade.symm
        exact ⟨d, rfl, eq_ok_of_toOption hgiven⟩

end

/-! ## §4. Two subscribers of one closed type. -/

/-- Two subscribers wait for an extension for optional integers. -/
def waiting : List (Request Label Nat) :=
  [.resolve optionalInteger (some 1) Label.fallback,
   .resolve optionalInteger (some 2) Label.fallback]

/-- The pair of the definition of optional types and of optional integers. -/
def optionalIntegers : TypeKey × TypeKey :=
  (Catalog.nullableDefinition.key, optionalInteger.key)

/-- A constructor of labels for optional types that fails for integers. -/
def failing : Request Label Nat :=
  .registerGeneric Catalog.nullableDefinition (labelling "first" ["Int32"])

/-- The constructor is run for both of them, and each failure is reported. -/
theorem runs_between_waiting :
    let f := ((new none true).run waiting).1
    let out := f.run [failing, .resolve optionalInteger none Label.fallback]
    1 < (runs optionalIntegers out.2).length ∧ reports optionalIntegers out.2 =
      ((runs optionalIntegers out.2).filter (f.rejects (labelling "first" ["Int32"]))).length := by
  intro f out
  have hok : (f.registerGeneric Catalog.nullableDefinition
      (labelling "first" ["Int32"])).isOk = true := by
    show (((new none true).run waiting).1.registerGeneric Catalog.nullableDefinition
      (labelling "first" ["Int32"])).isOk = true
    decide +kernel
  cases hout : f.registerGeneric Catalog.nullableDefinition (labelling "first" ["Int32"]) with
  | error err =>
      rw [hout] at hok
      cases hok
  | ok pair =>
      obtain ⟨f', ns⟩ := pair
      have hafter : ∀ q ∈ [(.resolve optionalInteger none Label.fallback : Request Label Nat)],
          q.Leaves f Catalog.nullableDefinition.key := by
        intro q hq
        rw [List.mem_singleton.mp hq]
        trivial
      obtain ⟨-, hiff, hreports, -⟩ := runs_between f hout hafter optionalInteger.key
      have hwanted : f.reportsFailures = true := by
        show ((new none true).run waiting).1.reportsFailures = true
        decide +kernel
      rw [if_pos hwanted] at hreports
      refine ⟨Nat.lt_of_not_le fun hle => ?_, hreports⟩
      rcases hiff.mp hle with hfew | ⟨d, hd, hworks⟩
      · have hmany : ¬ (f.offers optionalIntegers).length ≤ 1 := by
          show ¬ (((new none true).run waiting).1.offers optionalIntegers).length ≤ 1
          decide +kernel
        exact hmany hfew
      · have hfails : (f.offers optionalIntegers).head?.map
            (f.rejects (labelling "first" ["Int32"])) = some true := by
          show (((new none true).run waiting).1.offers optionalIntegers).head?.map
            (((new none true).run waiting).1.rejects (labelling "first" ["Int32"])) = some true
          decide +kernel
        have hd : (f.offers optionalIntegers).head? = some d := hd
        rw [hd, Option.map_some, hworks] at hfails
        cases hfails

/-- **A constructor is run more than once for one closed type, and reported more than once.** -/
theorem constructor_run_again : ¬ ∀ (c : Catalog) (before after : List (Request Label Nat))
    (definition : Descriptor) (b : Constructor Label) (k : TypeKey),
    c.Orderly → c.ImplementsInterfaces → (∀ q ∈ before ++ after, q.Within c.Known) →
    (((new none true).run before).1.registerGeneric definition b).isOk = true →
    (∀ q ∈ after, q.Leaves ((new none true).run before).1 definition.key) →
    let out := ((new none true).run before).1.run (.registerGeneric definition b :: after)
    (runs (definition.key, k) out.2).length ≤ 1 ∨ reports (definition.key, k) out.2 ≤ 1 := by
  intro h
  have htwice := h _ waiting [] Catalog.nullableDefinition (labelling "first" ["Int32"])
    optionalInteger.key orderly_short implementsInterfaces_short (fun q hq => by
      rw [List.append_nil] at hq
      simp only [waiting, List.mem_cons, List.not_mem_nil, or_false] at hq
      rcases hq with rfl | rfl <;> exact known_optionalInteger)
    (by decide +kernel) nofun
  revert htwice
  decide +kernel

end ValueText.Factory
