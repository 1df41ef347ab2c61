/-
  ValueText.Proofs.Registry.Renumbering — factories that differ in their numbers.

  Two factories have the same registrations in the same order, but one of them has
  counted from a later number on, and its extensions carry other marks.  Numbers are
  compared with one another only, and of an extension only its value type is looked
  at.  So every operation answers the same on both, up to the marks, and leaves them
  as far apart as they were.

  Whether failures of constructors are reported may differ as well, since nothing
  depends on the reports.

  Main results:

    • `Renumbered ν f f'`  the factories differ as `ν` says;
    • `Renumbered.registerInstance`, `Renumbered.registerGeneric`
                           registrations are accepted or refused by both;
    • `Renumbered.resolve` both resolve a type to the same registration.
-/
import ValueText.Proofs.Registry.History
import ValueText.Proofs.Sorting

namespace ValueText

/-! ## §1. Tables whose values are changed. -/

namespace Table

variable {κ α β : Type} [DecidableEq κ] {change : α → β}

/-- Changes the values, each of them in its place. -/
def map (change : α → β) (t : Table κ α) : Table κ β :=
  ⟨t.entries.map fun e => (e.1, change e.2)⟩

theorem get?_map (t : Table κ α) (k : κ) : (t.map change).get? k = (t.get? k).map change := by
  have hfind (es : List (κ × α)) :
      find? k (es.map fun e => (e.1, change e.2)) = (find? k es).map change := by
    induction es with
    | nil => rfl
    | cons e es ih =>
        simp only [List.map_cons, find?]
        split
        · rfl
        · exact ih
  exact hfind t.entries

theorem set_map (t : Table κ α) (k : κ) (v : α) :
    (t.map change).set k (change v) = (t.set k v).map change := by
  have hgo (es : List (κ × α)) :
      set.go k (change v) (es.map fun e => (e.1, change e.2)) =
        (set.go k v es).map fun e => (e.1, change e.2) := by
    induction es with
    | nil => rfl
    | cons e es ih =>
        simp only [List.map_cons, set.go]
        split
        · rfl
        · rw [ih, List.map_cons]
  exact congrArg Table.mk (hgo t.entries)

omit [DecidableEq κ] in
theorem values_map (t : Table κ α) : (t.map change).values = t.values.map change := by
  simp only [values, map, List.map_map]
  rfl

end Table

/-! ## §2. How far two factories are apart. -/

/-- What two factories have in common, and how they differ: the numbers of one of them are
greater by `offset`, and its extensions are the marked ones of the other. -/
structure Renumbering (ε : Type) [Extension ε] where
  role : Option Descriptor
  offset : Nat
  mark : ε → ε
  /-- A mark does not change what values an extension is written for. -/
  valueType? : ∀ e, Extension.valueType? (mark e) = Extension.valueType? e

/-- The notice is no report of a failure. -/
def Notice.isHeard {ε σ : Type} : Notice ε σ → Bool
  | .failed _ => false
  | _ => true

namespace Renumbering

variable {ε σ : Type} [Extension ε] (ν : Renumbering ε)

/-- The constructor that makes the marked extensions. -/
def constructor (c : Constructor ε) : Constructor ε :=
  { c with build := fun closed arguments => (c.build closed arguments).map ν.mark }

def instanceEntry (i : InstanceEntry ε) : InstanceEntry ε :=
  ⟨i.target, ν.mark i.extension, i.sequence + ν.offset⟩

def genericEntry (r : GenericEntry ε) : GenericEntry ε :=
  ⟨r.definition, ν.constructor r.constructor, r.sequence + ν.offset⟩

def resolved (r : Resolved ε) : Resolved ε := ⟨ν.mark r.extension, r.source⟩

def notice : Notice ε σ → Notice ε σ
  | .built label closed arguments => .built label closed arguments
  | .failed e => .failed e
  | .fellBack d => .fellBack d
  | .delivered s r => .delivered s (ν.resolved r)

def supply : Factory.Supply ε → Factory.Supply ε
  | .ready e => .ready (ν.mark e)
  | .toBuild definition c => .toBuild definition (ν.constructor c)

def candidate (c : Factory.Candidate ε) : Factory.Candidate ε :=
  ⟨c.claim, c.sequence + ν.offset, ν.supply c.supply⟩

/-- Both factories have done the same, reports of failures aside. -/
def Heard (ns ns' : List (Notice ε σ)) : Prop :=
  ns'.filter (·.isHeard) = (ns.filter (·.isHeard)).map ν.notice

variable {ν}

theorem Heard.nil : ν.Heard ([] : List (Notice ε σ)) [] := rfl

theorem Heard.single (n : Notice ε σ) : ν.Heard [n] [ν.notice n] := by
  cases n <;> rfl

theorem Heard.append {ns ns' ms ms' : List (Notice ε σ)} (h : ν.Heard ns ns')
    (h' : ν.Heard ms ms') : ν.Heard (ns ++ ms) (ns' ++ ms') := by
  unfold Heard at h h' ⊢
  rw [List.filter_append, List.filter_append, List.map_append, h, h']

end Renumbering

open Renumbering (Heard)

namespace Factory

variable {ε σ : Type} [Extension ε]

/-- The factories differ as `ν` says, and have the same subscribers. -/
structure Renumbered (ν : Renumbering ε) (f f' : Factory ε σ) : Prop where
  role : f.role = ν.role
  role' : f'.role = ν.role
  lastSequence : f'.lastSequence = f.lastSequence + ν.offset
  instances : f'.instances = f.instances.map ν.instanceEntry
  generics : f'.generics = f.generics.map ν.genericEntry
  made : f'.made = f.made.map ν.mark
  failed : f'.failed = f.failed
  subscriptions : f'.subscriptions = f.subscriptions

/-- Two operations keep in step: they do the same, the answers differ by `change`, and the
states that they leave are related again. -/
structure InStep {α τ : Type} (ν : Renumbering ε) (R : τ → τ → Prop) (change : α → α)
    (x x' : α × τ × List (Notice ε σ)) : Prop where
  answer : x'.1 = change x.1
  state : R x.2.1 x'.2.1
  notices : ν.Heard x.2.2 x'.2.2

namespace Renumbered

variable {ν : Renumbering ε} {f f' : Factory ε σ}

/-- Factories without registrations may count from any numbers on. -/
theorem clear (h : f.role = ν.role) (h' : f'.role = ν.role)
    (hlast : f'.lastSequence = f.lastSequence + ν.offset) : Renumbered ν f.clear f'.clear :=
  ⟨h, h', hlast, rfl, rfl, rfl, rfl, rfl⟩

/-! ## §3. Construction. -/

/-- **A constructor runs for both**, with the same arguments. -/
theorem construct (h : Renumbered ν f f') (definition : TypeKey) (c : Constructor ε)
    (closed : Descriptor) : InStep ν (Renumbered ν) (Option.map ν.mark)
      (f.construct definition c closed) (f'.construct definition (ν.constructor c) closed) := by
  have harguments : f'.argumentsFor (ν.constructor c) closed = f.argumentsFor c closed := by
    unfold argumentsFor
    rw [h.role, h.role']
    rfl
  have hbuild : (ν.constructor c).build closed (f.argumentsFor c closed) =
      (c.build closed (f.argumentsFor c closed)).map ν.mark := rfl
  unfold Factory.construct
  dsimp only
  rw [harguments, hbuild]
  cases c.build closed (f.argumentsFor c closed) with
  | ok e =>
      refine ⟨rfl, ⟨h.role, h.role', h.lastSequence, h.instances, h.generics, ?_, h.failed,
        h.subscriptions⟩, .single _⟩
      show f'.made.set (definition, closed.key) (ν.mark e) = _
      rw [h.made, Table.set_map]
  | error err =>
      refine ⟨rfl, ⟨h.role, h.role', h.lastSequence, h.instances, h.generics, h.made, ?_,
        h.subscriptions⟩, ?_⟩
      · show (definition, closed.key) :: f'.failed = (definition, closed.key) :: f.failed
        rw [h.failed]
      · show ν.Heard (if f.reportsFailures then _ else _) (if f'.reportsFailures then _ else _)
        cases f.reportsFailures <;> cases f'.reportsFailures <;> rfl

theorem obtain (h : Renumbered ν f f') (definition : TypeKey) (c : Constructor ε)
    (closed : Descriptor) : InStep ν (Renumbered ν) (Option.map ν.mark)
      (f.obtain definition c closed) (f'.obtain definition (ν.constructor c) closed) := by
  unfold Factory.obtain
  rw [h.made, Table.get?_map]
  cases f.made.get? (definition, closed.key) with
  | some e => exact ⟨rfl, h, .nil⟩
  | none => exact h.construct definition c closed

/-! ## §4. Registration. -/

section Visits

variable {τ : Type} {R : τ → τ → Prop}
  {act act' : τ → Subscription σ → Subscription σ × τ × List (Notice ε σ)}

/-- What keeps in step at each subscription keeps in step at several of them. -/
theorem visit (hact : ∀ t t' s, R t t' → InStep ν R id (act t s) (act' t' s))
    (ss : List (Subscription σ)) :
    ∀ t t', R t t' → InStep ν R id (Factory.visit act t ss) (Factory.visit act' t' ss) := by
  induction ss with
  | nil => exact fun t t' ht => ⟨rfl, ht, .nil⟩
  | cons s rest ih =>
      intro t t' ht
      have hs := hact t t' s ht
      have hrest := ih _ _ hs.state
      have hall := congr (congrArg List.cons hs.answer) hrest.answer
      exact ⟨hall, hrest.state, hs.notices.append hrest.notices⟩

theorem visitAll (hact : ∀ t t' s, R t t' → InStep ν R id (act t s) (act' t' s))
    (es : List (TypeKey × List (Subscription σ))) :
    ∀ t t', R t t' → InStep ν R id (Factory.visitAll act t es) (Factory.visitAll act' t' es) := by
  induction es with
  | nil => exact fun t t' ht => ⟨rfl, ht, .nil⟩
  | cons e rest ih =>
      intro t t' ht
      have hs := visit hact e.2 t t' ht
      have hrest := ih _ _ hs.state
      have hall := congr (congrArg List.cons (congrArg (Prod.mk e.1) hs.answer)) hrest.answer
      exact ⟨hall, hrest.state, hs.notices.append hrest.notices⟩

end Visits

/-- Both factories have refused a registration for one reason, or have done the same. -/
inductive SameOutcome (ν : Renumbering ε) :
    Except RegistrationError (Factory ε σ × List (Notice ε σ)) →
      Except RegistrationError (Factory ε σ × List (Notice ε σ)) → Prop
  | refused (e : RegistrationError) : SameOutcome ν (.error e) (.error e)
  | accepted {f f' : Factory ε σ} {ns ns' : List (Notice ε σ)} (h : Renumbered ν f f')
      (hn : ν.Heard ns ns') : SameOutcome ν (.ok (f, ns)) (.ok (f', ns'))

theorem checkInstance_mark (target : Descriptor) (e : ε) :
    checkInstance target (ν.mark e) = checkInstance target e := by
  unfold checkInstance
  rw [ν.valueType?]

theorem offerVisit (target : Descriptor) (e : ε) (t t' : Unit) (s : Subscription σ) :
    InStep ν (fun _ _ : Unit => True) id (Factory.offerVisit target e t s)
      (Factory.offerVisit target (ν.mark e) t' s) := by
  unfold Factory.offerVisit Factory.offerInstance
  dsimp only
  split
  · exact ⟨rfl, trivial, .single _⟩
  · exact ⟨rfl, trivial, .nil⟩

theorem withExtension (h : Renumbered ν f f') (target : Descriptor) (e : ε) :
    Renumbered ν (f.withExtension target e) (f'.withExtension target (ν.mark e)) := by
  refine ⟨h.role, h.role', ?_, ?_, h.generics, h.made, h.failed, h.subscriptions⟩
  · dsimp only [Factory.withExtension]
    rw [h.lastSequence]
    omega
  · dsimp only [Factory.withExtension]
    rw [h.instances, ← Table.set_map, h.lastSequence, Nat.add_right_comm]
    rfl

/-- What the replaced constructor made, or failed to make, is forgotten by both. -/
theorem withConstructor (h : Renumbered ν f f') (definition : Descriptor) (c : Constructor ε) :
    Renumbered ν (f.withConstructor definition c)
      (f'.withConstructor definition (ν.constructor c)) := by
  refine ⟨h.role, h.role', ?_, h.instances, ?_, ?_, ?_, h.subscriptions⟩
  · dsimp only [Factory.withConstructor]
    rw [h.lastSequence]
    omega
  · dsimp only [Factory.withConstructor]
    rw [h.generics, ← Table.set_map, h.lastSequence, Nat.add_right_comm]
    rfl
  · dsimp only [Factory.withConstructor]
    rw [h.made, Table.map, List.filter_map]
    rfl
  · dsimp only [Factory.withConstructor]
    rw [h.failed]

/-- Both keep the subscriptions as the visits left them. -/
theorem settled {x x' : List (TypeKey × List (Subscription σ)) × Factory ε σ × List (Notice ε σ)}
    (h : InStep ν (Renumbered ν) id x x') :
    SameOutcome ν (.ok ({ x.2.1 with subscriptions := ⟨x.1⟩ }, x.2.2))
      (.ok ({ x'.2.1 with subscriptions := ⟨x'.1⟩ }, x'.2.2)) := by
  obtain ⟨hanswer, ⟨hr, hr', hl, hi, hg, hm, hf, -⟩, hnotices⟩ := h
  exact .accepted ⟨hr, hr', hl, hi, hg, hm, hf, congrArg Table.mk hanswer⟩ hnotices

/-- **An extension is accepted by both factories or by none.** -/
theorem registerInstance (h : Renumbered ν f f') (target : Descriptor) (e : ε) :
    SameOutcome ν (f.registerInstance target e) (f'.registerInstance target (ν.mark e)) := by
  unfold Factory.registerInstance
  rw [checkInstance_mark]
  cases checkInstance target e with
  | error err => exact .refused err
  | ok _ =>
      have hvisits : InStep ν (fun _ _ : Unit => True) id
          (Factory.visitAll (Factory.offerVisit target e) () f.subscriptions.entries)
          (Factory.visitAll (Factory.offerVisit target (ν.mark e)) () f'.subscriptions.entries) := by
        rw [h.subscriptions]
        exact visitAll (fun t t' s _ => offerVisit target e t t' s) f.subscriptions.entries
          () () trivial
      have hall : InStep ν (Renumbered ν) id (_, f.withExtension target e, _)
          (_, f'.withExtension target (ν.mark e), _) :=
        ⟨hvisits.answer, h.withExtension target e, hvisits.notices⟩
      exact settled hall

theorem checkGeneric (h : Renumbered ν f f') (definition : Descriptor) (c : Constructor ε) :
    f'.checkGeneric definition (ν.constructor c) = f.checkGeneric definition c := by
  unfold Factory.checkGeneric
  rw [h.role, h.role']
  rfl

/-- A subscriber has the same choice at both factories. -/
theorem offerGeneric (definition : TypeKey) (c : Constructor ε) (f f' : Factory ε σ)
    (s : Subscription σ) (h : Renumbered ν f f') :
    InStep ν (Renumbered ν) id (Factory.offerGeneric definition c f s)
      (Factory.offerGeneric definition (ν.constructor c) f' s) := by
  unfold Factory.offerGeneric
  cases closedIn? definition s.objectType with
  | none => exact ⟨rfl, h, .nil⟩
  | some closed =>
      dsimp only
      split
      · obtain ⟨hanswer, hstate, hnotices⟩ := h.obtain definition c closed
        generalize f.obtain definition c closed = x at hanswer hstate hnotices ⊢
        generalize f'.obtain definition (ν.constructor c) closed = x'
          at hanswer hstate hnotices ⊢
        obtain ⟨_ | e, f₁, ns⟩ := x <;> obtain ⟨o', f₁', ns'⟩ := x' <;> cases hanswer
        · exact ⟨rfl, hstate, hnotices⟩
        · exact ⟨rfl, hstate, hnotices.append (.single (.delivered _ _))⟩
      · exact ⟨rfl, h, .nil⟩

/-- **A constructor is accepted by both factories or by none.** -/
theorem registerGeneric (h : Renumbered ν f f') (definition : Descriptor) (c : Constructor ε) :
    SameOutcome ν (f.registerGeneric definition c)
      (f'.registerGeneric definition (ν.constructor c)) := by
  unfold Factory.registerGeneric
  rw [h.checkGeneric]
  cases f.checkGeneric definition c with
  | error err => exact .refused err
  | ok _ =>
      have hvisits : InStep ν (Renumbered ν) id
          (Factory.visitAll (Factory.offerGeneric definition.key c)
            (f.withConstructor definition c) f.subscriptions.entries)
          (Factory.visitAll (Factory.offerGeneric definition.key (ν.constructor c))
            (f'.withConstructor definition (ν.constructor c)) f'.subscriptions.entries) := by
        rw [h.subscriptions]
        exact visitAll (offerGeneric definition.key c) f.subscriptions.entries _ _
          (h.withConstructor definition c)
      exact settled hvisits

/-! ## §5. Resolution. -/

theorem candidatesAt (h : Renumbered ν f f') (d : Descriptor) :
    f'.candidatesAt d = (f.candidatesAt d).map ν.candidate := by
  unfold Factory.candidatesAt
  rw [h.instances, h.generics, h.failed, Table.get?_map]
  dsimp only
  rw [List.map_append]
  congr 1
  · cases f.instances.get? d.key <;> rfl
  · cases d.definition with
    | none => rfl
    | some g =>
        dsimp only
        rw [Table.get?_map]
        cases f.generics.get? g.key with
        | none => rfl
        | some r =>
            dsimp only [Option.map_some]
            split <;> rfl

theorem candidates (h : Renumbered ν f f') (X : Descriptor) :
    f'.candidates X = (f.candidates X).map ν.candidate := by
  have hall : X.chain.flatMap f'.candidatesAt =
      (X.chain.flatMap f.candidatesAt).map ν.candidate := by
    rw [List.map_flatMap]
    exact congrArg (List.flatMap · X.chain) (funext h.candidatesAt)
  unfold Factory.candidates
  rw [hall]
  refine StableSort.sort_map (fun a b => ?_) _
  simp only [Renumbering.candidate, Nat.add_lt_add_iff_right]

theorem prefer (best : Option (Candidate ε)) (c : Candidate ε) :
    Factory.prefer (best.map ν.candidate) (ν.candidate c) =
      (Factory.prefer best c).map ν.candidate := by
  unfold Factory.prefer
  have hclaim (c : Candidate ε) : (ν.candidate c).claim = c.claim := rfl
  have hclaims : (best.map ν.candidate).map (·.claim) = best.map (·.claim) := by
    cases best <;> rfl
  rw [hclaim, hclaims]
  split <;> rfl

/-- **The same registration is preferred.** -/
theorem winner? (h : Renumbered ν f f') (X : Descriptor) :
    f'.winner? X = (f.winner? X).map ν.candidate := by
  have hfold (cs : List (Candidate ε)) : ∀ best : Option (Candidate ε),
      (cs.map ν.candidate).foldl Factory.prefer (best.map ν.candidate) =
        (cs.foldl Factory.prefer best).map ν.candidate := by
    induction cs with
    | nil => exact fun best => rfl
    | cons c cs ih =>
        intro best
        rw [List.map_cons, List.foldl_cons, List.foldl_cons, prefer, ih]
  unfold Factory.winner?
  rw [h.candidates]
  exact hfold _ none

theorem lookup (fuel : Nat) : ∀ {f f' : Factory ε σ}, Renumbered ν f f' → ∀ X : Descriptor,
    InStep ν (Renumbered ν) (Option.map ν.resolved) (Factory.lookup fuel f X)
      (Factory.lookup fuel f' X) := by
  -- Induction on the fuel: a constructor that fails is set aside by both factories.
  induction fuel with
  | zero => exact fun h X => ⟨rfl, h, .nil⟩
  | succ fuel ih =>
      intro f f' h X
      unfold Factory.lookup
      rw [h.winner?]
      rcases f.winner? X with _ | ⟨claim, n, e | ⟨definition, c⟩⟩
      · exact ⟨rfl, h, .nil⟩
      · exact ⟨rfl, h, .nil⟩
      · obtain ⟨hanswer, hstate, hnotices⟩ := h.obtain definition c claim.target
        dsimp only [Option.map_some, Renumbering.candidate, Renumbering.supply]
        generalize f.obtain definition c claim.target = x at hanswer hstate hnotices ⊢
        generalize f'.obtain definition (ν.constructor c) claim.target = x'
          at hanswer hstate hnotices ⊢
        obtain ⟨_ | e, f₁, ns⟩ := x <;> obtain ⟨o', f₁', ns'⟩ := x' <;> cases hanswer
        · have hrest := ih hstate X
          exact ⟨hrest.answer, hrest.state, hnotices.append hrest.notices⟩
        · exact ⟨rfl, hstate, hnotices⟩

/-- A subscriber is remembered by both, with the same choice. -/
theorem subscribe (h : Renumbered ν f f') (X : Descriptor) (r : Resolved ε) (s : σ) :
    Renumbered ν (f.subscribe X r s) (f'.subscribe X (ν.resolved r) s) := by
  refine ⟨h.role, h.role', h.lastSequence, h.instances, h.generics, h.made, h.failed, ?_⟩
  dsimp only [Factory.subscribe]
  rw [h.subscriptions]
  rfl

/-- **Both factories resolve a type to the same registration.** -/
theorem resolve (h : Renumbered ν f f') (X : Descriptor) (subscriber : Option σ)
    {fallback : Descriptor → ε} (hfallback : ∀ d, ν.mark (fallback d) = fallback d) :
    InStep ν (Renumbered ν) ν.resolved (f.resolve X subscriber fallback)
      (f'.resolve X subscriber fallback) := by
  have hfound := lookup (X.chain.length + 1) h X
  unfold Factory.resolve Factory.find
  generalize Factory.lookup (X.chain.length + 1) f X = x at hfound ⊢
  generalize Factory.lookup (X.chain.length + 1) f' X = x' at hfound ⊢
  obtain ⟨found, f₁, ns⟩ := x
  obtain ⟨found', f₁', ns'⟩ := x'
  obtain ⟨hfound, hstate, hnotices⟩ := hfound
  dsimp only at hfound hstate hnotices ⊢
  subst hfound
  -- A subscriber hears of the answer, whatever it is.
  have hheard (s : σ) (r : Resolved ε) {ms ms' : List (Notice ε σ)} (hms : ν.Heard ms ms') :
      InStep ν (Renumbered ν) ν.resolved (r, f₁.subscribe X r s, ms ++ [.delivered s r])
        (ν.resolved r, f₁'.subscribe X (ν.resolved r) s, ms' ++ [.delivered s (ν.resolved r)]) :=
    ⟨rfl, hstate.subscribe X r s, hms.append (.single (.delivered s r))⟩
  cases found with
  | some r =>
      cases subscriber with
      | none => exact ⟨rfl, hstate, hnotices⟩
      | some s => exact hheard s r hnotices
  | none =>
      have hmarked : ν.resolved ⟨fallback X, none⟩ = ⟨fallback X, none⟩ := by
        rw [Renumbering.resolved, hfallback]
      have hfell : ν.Heard (ns ++ [.fellBack X]) (ns' ++ [.fellBack X]) :=
        hnotices.append (.single (.fellBack X))
      cases subscriber with
      | none => exact ⟨hmarked.symm, hstate, hfell⟩
      | some s =>
          have hanswer := hheard s ⟨fallback X, none⟩ hfell
          rwa [hmarked] at hanswer

/-- **Both factories list the same types.** -/
theorem registeredTypes (h : Renumbered ν f f') : f'.registeredTypes = f.registeredTypes := by
  have hall : f'.instances.values.map (fun i => (i.sequence, i.target)) ++
      f'.generics.values.map (fun g => (g.sequence, g.definition)) =
      (f.instances.values.map (fun i => (i.sequence, i.target)) ++
        f.generics.values.map fun g => (g.sequence, g.definition)).map
          fun p => (p.1 + ν.offset, p.2) := by
    rw [h.instances, h.generics, Table.values_map, Table.values_map]
    simp only [List.map_append, List.map_map]
    rfl
  unfold Factory.registeredTypes
  dsimp only
  rw [hall, StableSort.sort_map (p := fun a b : Nat × Descriptor => a.1 < b.1)
    (fun a b => by simp only [Nat.add_lt_add_iff_right]), List.map_map]
  rfl

end Renumbered
end Factory
end ValueText
