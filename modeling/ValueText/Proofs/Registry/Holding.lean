/-
  ValueText.Proofs.Registry.Holding — where the answers of a factory come from.

  A factory gives out nothing but what was registered for a type of the chain,
  what a constructor made and, where nothing applies, what the caller falls back
  to; and it gives that to whom has asked for the type.  So what is known of
  registrations, constructors, fallbacks and subscribers is known of every answer
  and of everything that is delivered.

  Main results:

    • `Origins.Holds`            the factory holds only what is known;
    • `Origins.Holds.resolve`    its answers are then known, too;
    • `Origins.Holds.registerInstance`, `Origins.Holds.registerGeneric`
                                 and so is what a registration delivers.
-/
import ValueText.Proofs.Registry.History

namespace ValueText.Factory

variable {ε σ : Type}

/-! ## §1. Origins. -/

/-- What is known of the extensions and the subscribers of a factory. -/
structure Origins (ε σ : Type) where
  /-- What is registered for a type. -/
  registered : Descriptor → ε → Prop
  /-- What constructors make. -/
  made : ε → Prop
  /-- What is fallen back to for a type. -/
  fallback : Descriptor → ε → Prop
  /-- The types that a subscriber asks for. -/
  subscribes : σ → Descriptor → Prop

namespace Origins

variable (O : Origins ε σ)

/-- An answer for a type has one of the origins. -/
inductive Answer (X : Descriptor) : Resolved ε → Prop
  | registered {target : Descriptor} {e : ε} (h : O.registered target e)
      (ha : target.isAssignableFrom X = true) : Answer X ⟨e, some ⟨target, false⟩⟩
  | made {d : Descriptor} {e : ε} (h : O.made e) : Answer X ⟨e, some ⟨d, true⟩⟩
  | fallback {e : ε} (h : O.fallback X e) : Answer X ⟨e, none⟩

/-- What is delivered is an answer for a type that the subscriber asks for. -/
def Delivers (ns : List (Notice ε σ)) : Prop :=
  ∀ s r, Notice.delivered s r ∈ ns → ∃ X, O.subscribes s X ∧ O.Answer X r

/-- Everything that the constructor makes is known. -/
def Makes (c : Constructor ε) : Prop :=
  ∀ closed arguments e, c.build closed arguments = .ok e → O.made e

/-- The factory holds only what is known. -/
structure Holds (f : Factory ε σ) : Prop where
  instances : ∀ k i, f.instances.get? k = some i →
    i.target.key = k ∧ O.registered i.target i.extension
  generics : ∀ k r, f.generics.get? k = some r → O.Makes r.constructor
  made : ∀ k e, f.made.get? k = some e → O.made e
  subscribed : ∀ x ∈ f.subscribers, O.subscribes x.subscriber x.objectType

variable {O}

theorem delivers_nil : O.Delivers [] := fun _ _ h => absurd h List.not_mem_nil

theorem delivers_of_silent {ns : List (Notice ε σ)} (h : Silent ns) : O.Delivers ns :=
  fun s r hmem => absurd hmem (h s r)

theorem Delivers.append {ns ms : List (Notice ε σ)} (h : O.Delivers ns) (h' : O.Delivers ms) :
    O.Delivers (ns ++ ms) := by
  intro s r hmem
  rcases List.mem_append.mp hmem with hmem | hmem
  · exact h s r hmem
  · exact h' s r hmem

theorem delivers_one {s : σ} {X : Descriptor} {r : Resolved ε} (hs : O.subscribes s X)
    (h : O.Answer X r) : O.Delivers [Notice.delivered s r] := by
  intro s' r' hmem
  cases List.mem_singleton.mp hmem
  exact ⟨X, hs, h⟩

theorem holds_clear (f : Factory ε σ) : O.Holds f.clear := ⟨nofun, nofun, nofun, nofun⟩

theorem Holds.withSubscriptions {f : Factory ε σ} (h : O.Holds f)
    {t : Table TypeKey (List (Subscription σ))}
    (ht : ∀ x ∈ t.entries.flatMap (·.2), O.subscribes x.subscriber x.objectType) :
    O.Holds { f with subscriptions := t } := ⟨h.instances, h.generics, h.made, ht⟩

/-! ## §2. Answers. -/

variable {f : Factory ε σ} {X : Descriptor}

theorem isAssignableFrom_of_mem_chain {d target : Descriptor} (hd : d ∈ X.chain)
    (hkey : target.key = d.key) : target.isAssignableFrom X = true := by
  unfold Descriptor.isAssignableFrom
  rw [Bool.or_eq_true, decide_eq_true_eq, List.any_eq_true]
  rcases List.mem_cons.mp hd with rfl | hd
  · exact .inl hkey
  · exact .inr ⟨d, hd, by rw [decide_eq_true_eq, hkey]⟩

/-- What a constructor is asked for is known. -/
theorem Holds.obtain (h : O.Holds f) {c : Constructor ε} (hc : O.Makes c) (g : TypeKey)
    (d : Descriptor) :
    (∀ e, (f.obtain g c d).1 = some e → O.made e) ∧ O.Holds (f.obtain g c d).2.1 := by
  unfold Factory.obtain construct
  split
  · next e he =>
      refine ⟨fun e' he' => ?_, h⟩
      cases he'
      exact h.made _ e he
  · dsimp only
    split
    · next e he =>
        have hmade : O.made e := hc _ _ e he
        refine ⟨fun e' he' => by cases he'; exact hmade, h.instances, h.generics, fun k e' hk => ?_,
          h.subscribed⟩
        rw [Table.get?_set] at hk
        split at hk
        · cases hk
          exact hmade
        · exact h.made k e' hk
    · refine ⟨fun e' he' => ?_, h.instances, h.generics, h.made, h.subscribed⟩
      cases he'

theorem Holds.lookup (X : Descriptor) (fuel : Nat) : ∀ {f : Factory ε σ}, O.Holds f →
    (∀ r, (f.lookup fuel X).1 = some r → O.Answer X r) ∧ O.Holds (f.lookup fuel X).2.1 ∧
      Silent (f.lookup fuel X).2.2 := by
  -- Induction on the fuel; a winner is an extension that was registered, or is made.
  induction fuel with
  | zero => intro f h; exact ⟨nofun, h, nofun⟩
  | succ fuel ih =>
      intro f h
      unfold Factory.lookup
      split
      · exact ⟨nofun, h, nofun⟩
      · next claim n e hw =>
          obtain ⟨d, hd, hcand⟩ := mem_candidates.mp (winner?_mem hw)
          cases hcand with
          | «instance» hi =>
              refine ⟨fun r hr => ?_, h, nofun⟩
              cases hr
              obtain ⟨hkey, hregistered⟩ := h.instances _ _ hi
              exact .registered hregistered (isAssignableFrom_of_mem_chain hd hkey)
      · next claim n g c hw =>
          have hmem := Preference.champion_mem ((winner?_eq_champion f X).symm.trans hw)
          obtain ⟨d, -, hcand⟩ := mem_candidates.mp hmem
          cases hcand with
          | @generic g r hg hr _ =>
              have hsilent := f.silent_obtain g.key r.constructor d
              obtain ⟨hvalue, hrest⟩ := h.obtain (h.generics _ _ hr) g.key d
              split
              · next e f₁ ns hout =>
                  rw [hout] at hvalue hrest hsilent
                  refine ⟨fun r hr => ?_, hrest, hsilent⟩
                  cases hr
                  exact .made (hvalue e rfl)
              · next f₁ ns hout =>
                  rw [hout] at hrest hsilent
                  obtain ⟨hfound, hleft, hquiet⟩ := ih hrest
                  exact ⟨hfound, hleft, hsilent.append hquiet⟩

theorem Holds.subscribe (h : O.Holds f) {s : σ} (hs : O.subscribes s X) (r : Resolved ε) :
    O.Holds (f.subscribe X r s) := by
  obtain ⟨as, bs, hbefore, hafter⟩ := f.subscribers_subscribe X r s
  apply h.withSubscriptions
  intro x hx
  have hx : x ∈ as ++ ⟨X, r.source, s⟩ :: bs := by rw [← hafter]; exact hx
  rcases List.mem_append.mp hx with hx | hx
  · exact h.subscribed x (by rw [hbefore]; exact List.mem_append_left _ hx)
  · rcases List.mem_cons.mp hx with rfl | hx
    · exact hs
    · exact h.subscribed x (by rw [hbefore]; exact List.mem_append_right _ hx)

/-- **Every answer is known**, and so is what a subscriber gets. -/
theorem Holds.resolve (h : O.Holds f) {s? : Option σ} (hs : ∀ s, s? = some s → O.subscribes s X)
    {fallback : Descriptor → ε} (hfallback : O.fallback X (fallback X)) :
    O.Answer X (f.resolve X s? fallback).1 ∧ O.Holds (f.resolve X s? fallback).2.1 ∧
      O.Delivers (f.resolve X s? fallback).2.2 := by
  obtain ⟨hfound, hleft, hsilent⟩ := Holds.lookup X (X.chain.length + 1) h
  have hgiven {r : Resolved ε} (hr : O.Answer X r) {ns : List (Notice ε σ)} (hns : Silent ns)
      {f₁ : Factory ε σ} (hf₁ : O.Holds f₁) (s : σ) (he : s? = some s) :
      O.Answer X r ∧ O.Holds (f₁.subscribe X r s) ∧ O.Delivers (ns ++ [.delivered s r]) :=
    ⟨hr, hf₁.subscribe (hs s he) r,
      (delivers_of_silent hns).append (delivers_one (hs s he) hr)⟩
  unfold Factory.resolve Factory.find
  cases hout : f.lookup (X.chain.length + 1) X with
  | mk found rest =>
  obtain ⟨f₁, ns⟩ := rest
  rw [hout] at hfound hleft hsilent
  cases found with
  | some r =>
      cases s? with
      | none => exact ⟨hfound r rfl, hleft, delivers_of_silent hsilent⟩
      | some s => exact hgiven (hfound r rfl) hsilent hleft s rfl
  | none =>
      have hfell : Silent (ns ++ [Notice.fellBack X]) := by
        refine hsilent.append fun s r hmem => ?_
        cases List.mem_singleton.mp hmem
      cases s? with
      | none => exact ⟨.fallback hfallback, hleft, delivers_of_silent hfell⟩
      | some s => exact hgiven (.fallback hfallback) hfell hleft s rfl

/-! ## §3. Registrations. -/

/-- What each visit keeps and notices, all of them keep and notice. -/
theorem visit_notices {τ : Type}
    {act : τ → Subscription σ → Subscription σ × τ × List (Notice ε σ)} {I : τ → Prop}
    (xs : List (Subscription σ)) (h : ∀ t, I t → ∀ x ∈ xs,
      I (act t x).2.1 ∧ O.Delivers (act t x).2.2) :
    ∀ {t : τ}, I t → I (visit act t xs).2.1 ∧ O.Delivers (visit act t xs).2.2 := by
  induction xs with
  | nil => intro t ht; exact ⟨ht, nofun⟩
  | cons x xs ih =>
      intro t ht
      obtain ⟨hkept, hnoticed⟩ := h t ht x List.mem_cons_self
      obtain ⟨hrest, hnotices⟩ :=
        ih (fun t ht y hy => h t ht y (List.mem_cons_of_mem _ hy)) hkept
      exact ⟨hrest, hnoticed.append hnotices⟩

/-- Visits that leave subscriber and type as they are leave what is known of them. -/
theorem subscribed_visit {τ : Type}
    {act : τ → Subscription σ → Subscription σ × τ × List (Notice ε σ)}
    (hact : ∀ t x, (act t x).1.subscriber = x.subscriber ∧ (act t x).1.objectType = x.objectType)
    {xs : List (Subscription σ)} (h : ∀ x ∈ xs, O.subscribes x.subscriber x.objectType) {t : τ}
    {y : Subscription σ} (hy : y ∈ (visit act t xs).1) :
    O.subscribes y.subscriber y.objectType := by
  obtain ⟨x, hx, t', rfl⟩ := mem_visit xs hy
  rw [(hact t' x).1, (hact t' x).2]
  exact h x hx

theorem Holds.registerInstance [Extension ε] (h : O.Holds f) {target : Descriptor} {e : ε}
    (he : O.registered target e) {f' : Factory ε σ} {ns : List (Notice ε σ)}
    (hok : f.registerInstance target e = .ok (f', ns)) : O.Holds f' ∧ O.Delivers ns := by
  obtain ⟨heq, hvisit⟩ := registerInstance_eq_ok hok
  have hsame (u : Unit) (x : Subscription σ) :
      (offerVisit target e u x).1.subscriber = x.subscriber ∧
        (offerVisit target e u x).1.objectType = x.objectType := by
    dsimp only [offerVisit, offerInstance]
    split <;> exact ⟨rfl, rfl⟩
  constructor
  · have hadded : O.Holds (f.withExtension target e) := by
      refine ⟨fun k i hi => ?_, h.generics, h.made, h.subscribed⟩
      have hi : (f.instances.set target.key ⟨target, e, f.lastSequence + 1⟩).get? k = some i := hi
      rw [Table.get?_set] at hi
      split at hi
      · next hkey =>
          cases hi
          exact ⟨hkey, he⟩
      · exact h.instances k i hi
    rw [heq]
    refine hadded.withSubscriptions fun y hy => ?_
    have hy : y ∈ (visit (offerVisit target e) () f.subscribers).1 := by rw [hvisit]; exact hy
    exact subscribed_visit hsame h.subscribed hy
  · have hoffer : ∀ u, True → ∀ x ∈ f.subscribers,
        True ∧ O.Delivers (offerVisit target e u x).2.2 := by
      intro u _ x hx
      refine ⟨trivial, ?_⟩
      dsimp only [offerVisit, offerInstance]
      split
      · next hc =>
          rw [Bool.and_eq_true] at hc
          exact delivers_one (h.subscribed x hx) (.registered he hc.1)
      · exact delivers_nil
    have hall := (visit_notices f.subscribers hoffer (t := ()) trivial).2
    rwa [hvisit] at hall

theorem Holds.registerGeneric (h : O.Holds f) {definition : Descriptor} {c : Constructor ε}
    (hc : O.Makes c) {f' : Factory ε σ} {ns : List (Notice ε σ)}
    (hok : f.registerGeneric definition c = .ok (f', ns)) : O.Holds f' ∧ O.Delivers ns := by
  obtain ⟨-, f₁, heq, hvisit⟩ := registerGeneric_eq_ok hok
  have hsame (g : Factory ε σ) (x : Subscription σ) :
      (offerGeneric definition.key c g x).1.subscriber = x.subscriber ∧
        (offerGeneric definition.key c g x).1.objectType = x.objectType := by
    have hout := offered definition.key c g x
    generalize offerGeneric definition.key c g x = out at hout
    cases hout <;> exact ⟨rfl, rfl⟩
  have hstart : O.Holds (f.withConstructor definition c) := by
    refine ⟨h.instances, fun k r hk => ?_, fun k e hk => ?_, h.subscribed⟩
    · rw [generics_withConstructor] at hk
      split at hk
      · cases hk
        exact hc
      · exact h.generics k r hk
    · have hk : Table.find? k (f.made.entries.filter fun e => e.1.1 ≠ definition.key) = some e := hk
      rw [find?_filter (fun p => p.1 ≠ definition.key)] at hk
      split at hk
      · exact h.made k e hk
      · cases hk
  have hoffer : ∀ g, O.Holds g → ∀ x ∈ f.subscribers,
      O.Holds (offerGeneric definition.key c g x).2.1 ∧
        O.Delivers (offerGeneric definition.key c g x).2.2 := by
    intro g hg x hx
    have hobtain (d : Descriptor) := hg.obtain hc definition.key d
    have hsilent (d : Descriptor) := g.silent_obtain definition.key c d
    have hout := offered definition.key c g x
    generalize offerGeneric definition.key c g x = out at hout
    cases hout with
    | none => exact ⟨hg, delivers_nil⟩
    | refused => exact ⟨hg, delivers_nil⟩
    | failed d _ f₂ ns _ hrun =>
        have hleft := hobtain d
        have hquiet := hsilent d
        rw [hrun] at hleft hquiet
        exact ⟨hleft.2, delivers_of_silent hquiet⟩
    | given d _ e f₂ ns _ hrun =>
        have hleft := hobtain d
        have hquiet := hsilent d
        rw [hrun] at hleft hquiet
        exact ⟨hleft.2, (delivers_of_silent hquiet).append
          (delivers_one (h.subscribed x hx) (.made (hleft.1 e rfl)))⟩
  have hall := visit_notices f.subscribers hoffer hstart
  rw [hvisit] at hall
  rw [heq]
  refine ⟨hall.1.withSubscriptions fun y hy => ?_, hall.2⟩
  have hy : y ∈ (visit (offerGeneric definition.key c) (f.withConstructor definition c)
      f.subscribers).1 := by rw [hvisit]; exact hy
  exact subscribed_visit hsame h.subscribed hy

/-! ## §4. Requests. -/

variable (O)

/-- What a request brings is known. -/
def Admits : Request ε σ → Prop
  | .registerInstance target e => O.registered target e
  | .registerGeneric _ c => O.Makes c
  | .clear => True
  | .resolve X s? fallback =>
      (∀ s, s? = some s → O.subscribes s X) ∧ O.fallback X (fallback X)

variable {O}

/-- **A request leaves what is known, and delivers what is known.** -/
theorem Holds.step [Extension ε] (h : O.Holds f) {q : Request ε σ} (hq : O.Admits q) :
    O.Holds (f.step q).1 ∧ O.Delivers (f.step q).2 := by
  cases q with
  | registerInstance target e =>
      unfold Factory.step
      dsimp only
      split
      · next out hok => exact h.registerInstance hq hok
      · exact ⟨h, delivers_nil⟩
  | registerGeneric definition c =>
      unfold Factory.step
      dsimp only
      split
      · next out hok => exact h.registerGeneric hq hok
      · exact ⟨h, delivers_nil⟩
  | clear => exact ⟨holds_clear f, delivers_nil⟩
  | resolve X s? fallback => exact (h.resolve hq.1 hq.2).2

end Origins
end ValueText.Factory
