/-
  ValueText.Proofs.Repository.Settled — what a repository remembers is up to date.

  A repository asks its factory once for each type and remembers the answer in a slot,
  which subscribes to later ones.  If no constructor fails, each slot that was filled
  holds what the factory would answer now, at whatever moment it was filled and whatever
  was registered since.

  Main results:

    • `settled_kept`     each of the few ways in which a repository changes keeps this;
    • `Settled.get`, `Settled.getRuntime`  so look-ups give what the registrations say,
                         remembered or not.
-/
import ValueText.Proofs.Registry.Unfailing
import ValueText.Proofs.Repository.History

namespace ValueText

open Descriptor (Family Plain)
open Factory (Origins Current InSync Sound Unfailing SameRegistrations Request deliveries
  lastAnswer ofSubscriber)

/-! ## §1. Slots. -/

variable {K : Descriptor → Prop} {r : Repository} {X : Descriptor}

/-- What is known of the answers: without a registration there is only the fallback. -/
def fallbacks (K : Descriptor → Prop) : Origins Handle Slot where
  registered _ _ := True
  made _ := True
  fallback X h := h = Repository.staticFallback X ∨ h = Repository.runtimeFallback X
  subscribes := Slot.Asks K

namespace Slot

theorem Asks.known {s : Slot} (h : s.Asks K X) : K X := by
  cases s with
  | static t => exact h.2
  | runtime d => exact h.1 ▸ h.2

/-- A slot is for answers for one type. -/
theorem Asks.unique (hK : Family K) {s : Slot} {Y : Descriptor} (h : s.Asks K X)
    (h' : s.Asks K Y) : X = Y := by
  cases s with
  | static t => exact hK.unique X Y h.2 h'.2 (h.1.trans h'.1.symm)
  | runtime d => exact h.1.trans h'.1.symm

end Slot

namespace Repository

/-- The slot is filled with what the answer gives, or empty if there is none. -/
def Shows (r : Repository) : Slot → Option (Resolved Handle) → Prop
  | .static t, answer? => r.statics.get? t = answer?.map fun a => a.extension.forType t
  | .runtime d, answer? =>
      r.runtime.get? d.key = answer?.map fun a => runtimeHandle d a.extension

/-- What is delivered to another slot changes nothing. -/
theorem Shows.accept_other (hK : Family K) {s t : Slot} (hs : s.Asks K X)
    {answer? : Option (Resolved Handle)} (h : r.Shows s answer?) {Y : Descriptor}
    (ht : t.Asks K Y) (hne : t ≠ s) (answer : Resolved Handle) :
    (r.accept (.delivered t answer)).Shows s answer? := by
  cases t with
  | static t =>
      cases s with
      | static t' =>
          have hget : (r.statics.set t (answer.extension.forType t)).get? t' =
              r.statics.get? t' := by
            rw [Table.get?_set, if_neg fun he => hne (congrArg Slot.static he)]
          exact hget.trans h
      | runtime d => exact h
  | runtime d =>
      cases s with
      | static t => exact h
      | runtime d' =>
          -- Types of the family with one key are the same.
          have hkey : d.key ≠ d'.key := fun he => hne (congrArg Slot.runtime
            (hK.unique d d' (ht.1 ▸ ht.2) (hs.1 ▸ hs.2) he))
          have hget : (r.runtime.set d.key (runtimeHandle d answer.extension)).get? d'.key =
              r.runtime.get? d'.key := by
            rw [Table.get?_set, if_neg hkey]
          exact hget.trans h

theorem shows_accept (r : Repository) (s : Slot) (answer : Resolved Handle) :
    (r.accept (.delivered s answer)).Shows s (some answer) := by
  cases s with
  | static t =>
      show (r.statics.set t (answer.extension.forType t)).get? t = _
      rw [Table.get?_set, if_pos rfl]
      rfl
  | runtime d =>
      show (r.runtime.set d.key (runtimeHandle d answer.extension)).get? d.key = _
      rw [Table.get?_set, if_pos rfl]
      rfl

theorem Shows.of_eq {r' : Repository} {s : Slot} {answer? : Option (Resolved Handle)}
    (h : r.Shows s answer?) (hs : r'.statics = r.statics) (hr : r'.runtime = r.runtime) :
    r'.Shows s answer? := by
  cases s with
  | static t =>
      show r'.statics.get? t = _
      rw [hs]
      exact h
  | runtime d =>
      show r'.runtime.get? d.key = _
      rw [hr]
      exact h

/-! ## §2. Requests to the factory. -/

theorem factory_follow (r : Repository) (f : Factory Handle Slot)
    (ns : List (Notice Handle Slot)) : (r.follow f ns).factory = f := by
  refine foldl_accept (fun r n => ?_) ns _
  unfold Repository.accept
  split <;> rfl

theorem follow_nil (r : Repository) : r.follow r.factory [] = r := by
  unfold follow
  rw [List.append_nil, List.foldl_nil]

/-- A registration follows the factory, which does nothing if it refuses. -/
theorem registerHandle_eq (r : Repository) (target valueType : Descriptor) (f : Formatter) :
    let counted : Repository := { r with registrations := r.registrations + 1 }
    let out := counted.factory.step
      (.registerInstance target ⟨.registered r.registrations, valueType, f⟩)
    (r.registerHandle target valueType f).2 = counted.follow out.1 out.2 := by
  unfold Repository.registerHandle Factory.step
  dsimp only
  split
  · next hrefused =>
      rw [hrefused]
      exact (follow_nil _).symm
  · next hok => rw [hok]

/-- The constructor as a repository registers it. -/
def stamped (n : Nat) (k : Constructor Handle) : Constructor Handle :=
  { k with build := fun closed arguments =>
      (k.build closed arguments).map fun h =>
        { h with provenance := .constructed n closed.key } }

theorem registerGeneric_eq (r : Repository) (definition : Descriptor) (k : Constructor Handle) :
    let counted : Repository := { r with registrations := r.registrations + 1 }
    let out := counted.factory.step (.registerGeneric definition (stamped r.registrations k))
    (r.registerGeneric definition k).2 = counted.follow out.1 out.2 := by
  unfold Repository.registerGeneric Factory.step stamped
  dsimp only
  split
  · next hrefused =>
      rw [hrefused]
      exact (follow_nil _).symm
  · next hok => rw [hok]

variable [DecidableEq Slot]

/-- **A slot shows the last answer that was delivered to it.** -/
theorem Shows.follow (hK : Family K) {s : Slot} (hs : s.Asks K X) {f : Factory Handle Slot}
    (ns : List (Notice Handle Slot)) (hns : (fallbacks K).Delivers ns)
    {answer? : Option (Resolved Handle)} (h : r.Shows s answer?) :
    (r.follow f ns).Shows s ((deliveries s ns).getLast?.or answer?) := by
  have hall : ∀ (ns : List (Notice Handle Slot)), (fallbacks K).Delivers ns →
      ∀ (r : Repository) (answer? : Option (Resolved Handle)), r.Shows s answer? →
        (ns.foldl Repository.accept r).Shows s ((deliveries s ns).getLast?.or answer?) := by
    -- Induction on the notices, from the first one on.
    intro ns
    induction ns with
    | nil => exact fun _ r answer? h => h
    | cons n rest ih =>
        intro hns r answer? h
        have hrest := ih fun t a hmem => hns t a (List.mem_cons_of_mem _ hmem)
        cases n with
        | delivered t answer =>
            by_cases he : t = s
            · subst he
              have hlater := hrest _ _ (r.shows_accept t answer)
              have hdeliveries : deliveries t (.delivered t answer :: rest) =
                  answer :: deliveries t rest := by simp [deliveries]
              rw [hdeliveries, List.getLast?_cons]
              cases hlast : (deliveries t rest).getLast? with
              | none => rw [hlast] at hlater; exact hlater
              | some b => rw [hlast] at hlater; exact hlater
            · obtain ⟨Y, hY, -⟩ := hns t answer List.mem_cons_self
              have hdeliveries : deliveries s (.delivered t answer :: rest) =
                  deliveries s rest := by
                simp [deliveries, he]
              rw [hdeliveries]
              exact hrest _ _ (h.accept_other hK hs hY he answer)
        | built => exact hrest _ _ h
        | failed => exact hrest _ _ h
        | fellBack => exact hrest _ _ h
  have hstart : ({ r with factory := f, notices := r.notices ++ ns } : Repository).Shows s
      answer? := by cases s <;> exact h
  exact hall ns hns _ _ hstart

/-! ## §3. Settled repositories. -/

/-- The answer in a slot is what the factory would answer now. -/
structure Filled (K : Descriptor → Prop) (r : Repository) (s : Slot) (X : Descriptor)
    (answer : Resolved Handle) : Prop where
  shows_ : r.Shows s (some answer)
  current : Current r.factory X s answer
  origin : (fallbacks K).Answer X answer

/-- Nobody has asked for the slot. -/
structure Vacant (r : Repository) (s : Slot) : Prop where
  shows_ : r.Shows s none
  unsubscribed : ofSubscriber s r.factory.subscribers = []

/-- Constructors do not fail, and every slot is vacant or up to date. -/
structure Settled (K : Descriptor → Prop) (r : Repository) : Prop where
  records : r.Records (fallbacks K)
  sound : Sound K r.factory
  unfailing : Unfailing K r.factory
  slots : ∀ s X, s.Asks K X → r.Vacant s ∨ ∃ answer, r.Filled K s X answer

theorem Settled.of_eq {r' : Repository} (h : r.Settled K) (hf : r'.factory = r.factory)
    (hs : r'.statics = r.statics) (hr : r'.runtime = r.runtime) (hn : r'.notices = r.notices) :
    r'.Settled K := by
  refine ⟨⟨h.records.1.of_eq hf hs hr, hn ▸ h.records.2⟩, hf ▸ h.sound, hf ▸ h.unfailing,
    fun s X hsX => ?_⟩
  rcases h.slots s X hsX with hvacant | ⟨answer, hfilled⟩
  · exact .inl ⟨hvacant.shows_.of_eq hs hr, hf ▸ hvacant.unsubscribed⟩
  · exact .inr ⟨answer, hfilled.shows_.of_eq hs hr, hf ▸ hfilled.current, hfilled.origin⟩

theorem settled_forget (h : (fallbacks K).Delivers r.notices) : r.forget.Settled K := by
  refine ⟨⟨r.holds_forget, h⟩, Factory.sound_clear _, nofun, fun s X _ => .inl ⟨?_, rfl⟩⟩
  cases s <;> rfl

theorem settled_blank (roleName : String) (role : Descriptor) (pool : PoolOptions) :
    (Repository.blank roleName role pool).Settled K :=
  (settled_forget (r := Repository.blank roleName role pool) Origins.delivers_nil).of_eq
    rfl rfl rfl rfl

/-- What a slot gets has one of the origins. -/
theorem origin_of_delivered (hK : Family K) {s : Slot} (hs : s.Asks K X)
    {ns : List (Notice Handle Slot)} (hns : (fallbacks K).Delivers ns) {answer : Resolved Handle}
    (h : answer ∈ deliveries s ns) : (fallbacks K).Answer X answer := by
  obtain ⟨n, hn, hgives⟩ := List.mem_filterMap.mp h
  cases n with
  | delivered t b =>
      dsimp only at hgives
      split at hgives
      · next he =>
          cases hgives
          subst he
          obtain ⟨Y, hY, hanswer⟩ := hns t answer hn
          rw [hs.unique hK hY]
          exact hanswer
      · cases hgives
  | built => cases hgives
  | failed => cases hgives
  | fellBack => cases hgives

/-- **A request to the factory leaves every slot up to date.**  Who subscribes with it is a slot
that was vacant. -/
theorem Settled.follow (hK : Family K) (hP : Plain K) (h : r.Settled K)
    {q : Request Handle Slot} (hq : q.Within K) (hclear : q ≠ .clear)
    (hadmits : (fallbacks K).Admits q) (hc : q.Unfailing K r.factory)
    (hasked : ∀ s, q.subscriber? = some s → r.Vacant s ∧
      ∃ Y fallback, s.Asks K Y ∧ q = .resolve Y (some s) fallback) :
    (r.follow (r.factory.step q).1 (r.factory.step q).2).Settled K := by
  obtain ⟨hholds, hdelivers⟩ := h.records.1.factory.step hadmits
  have hsound := h.sound.step hK hq
  have hunfailing := h.unfailing.step hK h.sound hq hc
  have hrecords := h.records.continues (h.records.1.follow hholds hdelivers)
  have hfactory := r.factory_follow (r.factory.step q).1 (r.factory.step q).2
  have hshows (s : Slot) (X : Descriptor) (hs : s.Asks K X) (answer? : Option (Resolved Handle))
      (hbefore : r.Shows s answer?) := hbefore.follow hK hs (f := (r.factory.step q).1) _ hdelivers
  generalize r.follow (r.factory.step q).1 (r.factory.step q).2 = r' at hrecords hfactory hshows ⊢
  refine ⟨hrecords, by rw [hfactory]; exact hsound, by rw [hfactory]; exact hunfailing,
    fun s X hs => ?_⟩
  -- A slot is filled by the request that subscribes for it, and follows all others.
  by_cases hsubscriber : q.subscriber? = some s
  case pos =>
    obtain ⟨hvacant, Y, fallback, hY, rfl⟩ := hasked s hsubscriber
    obtain rfl := hs.unique hK hY
    obtain ⟨answer, hcurrent, hgiven⟩ :=
      Factory.current_subscribe hK h.sound hq hvacant.unsubscribed fallback
    have hfilled := hshows s X hs none hvacant.shows_
    rw [hgiven] at hfilled
    refine .inr ⟨answer, hfilled, by rw [hfactory]; exact hcurrent, ?_⟩
    refine origin_of_delivered hK hs hdelivers ?_
    rw [hgiven]
    exact List.mem_singleton_self answer
  case neg =>
    rcases h.slots s X hs with hvacant | ⟨answer, hfilled⟩
    · obtain ⟨hunsubscribed, hsilent⟩ :=
        Factory.unheard_step hK h.sound hq hsubscriber hvacant.unsubscribed
      have hnone := hshows s X hs none hvacant.shows_
      rw [hsilent] at hnone
      exact .inl ⟨hnone, by rw [hfactory]; exact hunsubscribed⟩
    · have hupdated := hfilled.current.step_unfailing hK hP hs.known h.sound hq hsubscriber hclear
        h.unfailing hc
      have hsome := hshows s X hs (some answer) hfilled.shows_
      unfold Factory.Updated lastAnswer at hupdated
      -- The slot keeps what it has, or gets what is delivered last.
      cases hlast : (deliveries s (r.factory.step q).2).getLast? with
      | none =>
          rw [hlast] at hsome hupdated
          exact .inr ⟨answer, hsome, by rw [hfactory]; exact hupdated, hfilled.origin⟩
      | some b =>
          rw [hlast] at hsome hupdated
          exact .inr ⟨b, hsome, by rw [hfactory]; exact hupdated,
            origin_of_delivered hK hs hdelivers (List.mem_of_getLast? hlast)⟩

/-! ## §4. Looking up. -/

/-- What a look-up finds is what the registrations say, and they stay as they are. -/
structure Found (K : Descriptor → Prop) (r r' : Repository) (X : Descriptor)
    (answer : Resolved Handle) : Prop where
  settled : r'.Settled K
  same : SameRegistrations r.factory r'.factory
  inSync : InSync r.factory X answer
  origin : (fallbacks K).Answer X answer

/-- A slot that is filled. -/
theorem Settled.found (h : r.Settled K) {s : Slot} {answer : Resolved Handle}
    (hfilled : r.Filled K s X answer) : Found K r r X answer :=
  ⟨h, .refl _, hfilled.current.inSync, hfilled.origin⟩

/-- A slot that is filled by asking the factory. -/
theorem Settled.ask (hK : Family K) (hP : Plain K) (h : r.Settled K) {s : Slot}
    (hs : s.Asks K X) (hvacant : r.Vacant s) {fallback : Descriptor → Handle}
    (hfallback : (fallbacks K).fallback X (fallback X)) :
    Found K r (r.follow (r.factory.resolve X (some s) fallback).2.1
      (r.factory.resolve X (some s) fallback).2.2) X
      (r.factory.resolve X (some s) fallback).1 := by
  have hasked : ∀ s', some s = some s' → Slot.Asks K s' X := by
    intro s' he
    cases he
    exact hs
  have hsettled := h.follow hK hP (q := .resolve X (some s) fallback) hs.known nofun
    ⟨hasked, hfallback⟩ trivial fun s' he => by
      cases he
      exact ⟨hvacant, X, fallback, hs, rfl⟩
  refine ⟨hsettled, ?_, Factory.inSync_resolve_unfailing hK h.sound h.unfailing hs.known _ _,
    (h.records.1.factory.resolve hasked hfallback).1⟩
  rw [factory_follow]
  exact Factory.sameRegistrations_resolve ..

/-- **The formatter for values of a type** is the one that the registrations say. -/
theorem Settled.getRuntime (hK : Family K) (hP : Plain K) (h : r.Settled K) {d : Descriptor}
    (hd : K d) : ∃ answer, Found K r (r.getRuntime d).2 d answer ∧
      (r.getRuntime d).1 = runtimeHandle d answer.extension := by
  have hs : Slot.Asks K (.runtime d) d := ⟨rfl, hd⟩
  unfold Repository.getRuntime
  rcases h.slots _ _ hs with hvacant | ⟨answer, hfilled⟩
  · have hnone : r.runtime.get? d.key = none := hvacant.shows_
    rw [hnone]
    exact ⟨_, h.ask hK hP hs hvacant (.inr rfl), rfl⟩
  · have hsome : r.runtime.get? d.key = some (runtimeHandle d answer.extension) := hfilled.shows_
    rw [hsome]
    exact ⟨answer, h.found hfilled, rfl⟩

/-- **The formatter for a host type** is the one that the registrations say. -/
theorem Settled.get (hK : Family K) (hP : Plain K) (h : r.Settled K) {c : Catalog} {t : HostType}
    (hd : K (c.typeOf t).1) (hkey : (c.typeOf t).1.key = .host t) :
    ∃ answer, Found K r (r.get c t).2.1 (c.typeOf t).1 answer ∧
      (r.get c t).1 = answer.extension.forType t := by
  have hs : Slot.Asks K (.static t) (c.typeOf t).1 := ⟨hkey, hd⟩
  unfold Repository.get
  rcases h.slots _ _ hs with hvacant | ⟨answer, hfilled⟩
  · have hnone : r.statics.get? t = none := hvacant.shows_
    rw [hnone]
    exact ⟨_, h.ask hK hP hs hvacant (.inl rfl), rfl⟩
  · have hsome : r.statics.get? t = some (answer.extension.forType t) := hfilled.shows_
    rw [hsome]
    exact ⟨answer, h.found hfilled, rfl⟩

/-! ## §5. Registrations. -/

theorem Settled.counted (h : r.Settled K) :
    ({ r with registrations := r.registrations + 1 } : Repository).Settled K :=
  h.of_eq rfl rfl rfl rfl

theorem Settled.registerHandle (hK : Family K) (hP : Plain K) (h : r.Settled K)
    {target : Descriptor} (ht : K target) (valueType : Descriptor) (f : Formatter) :
    (r.registerHandle target valueType f).2.Settled K := by
  rw [r.registerHandle_eq]
  exact h.counted.follow hK hP ht nofun trivial trivial nofun

/-- The constructor of the optional types does not fail for a type of the family. -/
def OptionalsSucceed (K : Descriptor → Prop) : Prop :=
  ∀ d g, K d → d.definition = some g → g.key = Catalog.nullableDefinition.key →
    ∃ h, nullableConstructor.build d d.genericArguments = .ok h

/-- Constructors that may be registered do not fail. -/
def Reliable (Allowed : Descriptor → Constructor Handle → Prop) : Prop :=
  ∀ g k, Allowed g k → ∀ closed arguments, ∃ h, k.build closed arguments = .ok h

variable {Allowed : Descriptor → Constructor Handle → Prop}

theorem Settled.registerGeneric (hK : Family K) (hP : Plain K) (hA : Reliable Allowed)
    (ho : OptionalsSucceed K) (h : r.Settled K) {definition : Descriptor} {k : Constructor Handle}
    (hk : Admitted Allowed definition k) : (r.registerGeneric definition k).2.Settled K := by
  rw [r.registerGeneric_eq]
  refine h.counted.follow hK hP trivial nofun (fun _ _ _ _ => trivial) ?_ nofun
  intro g d hg hd hdefinition
  have hbuilt : ∃ made,
      k.build d (r.factory.argumentsFor (stamped r.registrations k) d) = .ok made := by
    rcases hk with hallowed | ⟨rfl, rfl⟩
    · exact hA _ _ hallowed _ _
    · exact ho d g hd hdefinition hg
  obtain ⟨made, hmade⟩ := hbuilt
  refine ⟨{ made with provenance := .constructed r.registrations d.key }, ?_⟩
  show (k.build d (r.factory.argumentsFor (stamped r.registrations k) d)).map _ = _
  rw [hmade]
  rfl

/-- **The few ways in which a repository changes leave every slot up to date.** -/
theorem settled_kept (hK : Family K) (hP : Plain K) (hA : Reliable Allowed)
    (ho : OptionalsSucceed K) : Kept Allowed K (Settled K) where
  pool p h := h.of_eq rfl rfl rfl rfl
  forget h := settled_forget h.records.2
  registerHandle valueType f ht h := h.registerHandle hK hP ht valueType f
  registerGeneric hk h := h.registerGeneric hK hP hA ho hk
  getRuntime hd h := by
    obtain ⟨answer, hfound, -⟩ := h.getRuntime hK hP hd
    exact hfound.settled
  get hd hkey h := by
    obtain ⟨answer, hfound, -⟩ := h.get hK hP hd hkey
    exact hfound.settled

end Repository
end ValueText
