/-
  ValueText.Registry.Factory — extensions by type.

  A factory answers which extension handles values of a type.  An extension is
  registered for one type, or a constructor is registered for a generic
  definition and makes extensions for the closed types as they are met.

  To resolve a type, all registrations for the type and its supertypes are
  folded in the order in which they were made, `Claim.overrides` deciding between
  two of them.  If the winner is a constructor that fails, it is set aside for
  that closed type, and the fold starts again.

  Who resolves a type may subscribe.  Later registrations are then compared with
  what the subscriber has, and delivered when they take its place, without
  resolving the type again.

  Everything that can be seen from outside is recorded as a `Notice`, in order.
-/
import ValueText.Registry.Error
import ValueText.Registry.Specificity
import ValueText.StableSort
import ValueText.Table

namespace ValueText

/-! ## §1. What a factory holds. -/

/-- Extensions that may be written for values of one type. -/
class Extension (ε : Type) where
  valueType? : ε → Option Descriptor

/-- Makes extensions for closed types. -/
structure Constructor (ε : Type) where
  /-- The name under which its runs are recorded. -/
  label : Option String := none
  /-- The number of arguments, the role included. -/
  arity : Nat
  /-- Whether the role comes before the generic arguments. -/
  usesRole : Bool := false
  build : (closed : Descriptor) → (arguments : List Descriptor) → Except InstantiationError ε

namespace Constructor

/-- A constructor that takes `n` generic arguments. -/
def ofArguments {ε : Type} (label : Option String) (n : Nat)
    (build : Descriptor → List Descriptor → Except InstantiationError ε) : Constructor ε :=
  ⟨label, n, false, build⟩

/-- A constructor that takes the role and `n` generic arguments. -/
def ofRole {ε : Type} (label : Option String) (n : Nat)
    (build : Descriptor → List Descriptor → Except InstantiationError ε) : Constructor ε :=
  ⟨label, n + 1, true, build⟩

end Constructor

/-- An answer of the factory. -/
structure Resolved (ε : Type) where
  extension : ε
  /-- The registration that was chosen; `none` for the fallback. -/
  source : Option Claim

namespace Resolved

/-- The type that the chosen registration is for. -/
def registeredType? {ε : Type} (r : Resolved ε) : Option Descriptor := r.source.map (·.target)

/-- Whether a constructor made the extension. -/
def isGeneric {ε : Type} (r : Resolved ε) : Bool :=
  match r.source with
  | some c => c.generic
  | none => false

/-- Whether no registration applies. -/
def isFallback {ε : Type} (r : Resolved ε) : Bool := r.source.isNone

/-- The description of an answer. -/
def describe {ε : Type} (r : Resolved ε) : String :=
  "Resolved \x7b registered_type: " ++ Literal.ofOption (r.registeredType?.map (·.fullName))
    ++ ", is_generic: " ++ Literal.ofBool r.isGeneric ++ ", .. \x7d"

end Resolved

/-- What can be seen of the work of a factory. -/
inductive Notice (ε σ : Type)
  /-- A constructor was run. -/
  | built (label : Option String) (closed : Descriptor) (arguments : List Descriptor)
  /-- A constructor failed. -/
  | failed (e : InstantiationError)
  /-- No registration applied. -/
  | fellBack (objectType : Descriptor)
  /-- A subscriber got an answer. -/
  | delivered (subscriber : σ) (r : Resolved ε)

/-- An extension for one type. -/
structure InstanceEntry (ε : Type) where
  target : Descriptor
  extension : ε
  sequence : Nat

/-- A constructor for a generic definition. -/
structure GenericEntry (ε : Type) where
  definition : Descriptor
  constructor : Constructor ε
  sequence : Nat

/-- Somebody who wants to hear of better answers for a type. -/
structure Subscription (σ : Type) where
  objectType : Descriptor
  /-- The registration that the subscriber has its answer from. -/
  current : Option Claim
  subscriber : σ

/-- Extensions by type. -/
structure Factory (ε σ : Type) where
  role : Option Descriptor := none
  lastSequence : Nat := 0
  instances : Table TypeKey (InstanceEntry ε) := .empty
  generics : Table TypeKey (GenericEntry ε) := .empty
  /-- What constructors made, by definition and closed type. -/
  made : Table (TypeKey × TypeKey) ε := .empty
  /-- The definitions and closed types for which a constructor failed. -/
  failed : List (TypeKey × TypeKey) := []
  subscriptions : Table TypeKey (List (Subscription σ)) := .empty
  /-- Whether failures of constructors are reported. -/
  reportsFailures : Bool := false

namespace Factory

variable {ε σ : Type}

/-- The description of a factory. -/
def describe (f : Factory ε σ) : String :=
  "TypeExtensionFactory \x7b role: " ++ Literal.ofOption (f.role.map (·.fullName)) ++ ", .. \x7d"

/-! ## §2. Construction. -/

/-- The arguments that a constructor is run with. -/
def argumentsFor (f : Factory ε σ) (c : Constructor ε) (closed : Descriptor) : List Descriptor :=
  (if c.usesRole then f.role.toList else []) ++ closed.genericArguments

/-- Runs a constructor for a closed type and keeps what comes of it. -/
def construct (f : Factory ε σ) (definition : TypeKey) (c : Constructor ε) (closed : Descriptor) :
    Option ε × Factory ε σ × List (Notice ε σ) :=
  let arguments := f.argumentsFor c closed
  let run := Notice.built c.label closed arguments
  match c.build closed arguments with
  | .ok e => (some e, { f with made := f.made.set (definition, closed.key) e }, [run])
  | .error err =>
      (none, { f with failed := (definition, closed.key) :: f.failed },
        if f.reportsFailures then [run, .failed err] else [run])

/-- What was made for a closed type, or is made now. -/
def obtain (f : Factory ε σ) (definition : TypeKey) (c : Constructor ε) (closed : Descriptor) :
    Option ε × Factory ε σ × List (Notice ε σ) :=
  match f.made.get? (definition, closed.key) with
  | some e => (some e, f, [])
  | none => f.construct definition c closed

/-! ## §3. Registration. -/

/-- Whether an extension may be registered for a type. -/
def checkInstance [Extension ε] (target : Descriptor) (e : ε) : Except RegistrationError Unit :=
  if target.isGenericDefinition then .error (.openGenericTarget target.fullName)
  else
    match Extension.valueType? e with
    | none => .ok ()
    | some v =>
        if v.isAssignableFrom target || target.isAssignableFrom v then .ok ()
        else .error (.incompatibleExtension target.fullName v.fullName)

/-- Compares a new extension with what a subscriber has. -/
def offerInstance (target : Descriptor) (e : ε) (s : Subscription σ) :
    Subscription σ × List (Notice ε σ) :=
  let claim : Claim := ⟨target, false⟩
  if target.isAssignableFrom s.objectType && claim.overrides s.current then
    ({ s with current := some claim }, [.delivered s.subscriber ⟨e, some claim⟩])
  else (s, [])

/-- Does something to each of several subscriptions. -/
def visit {τ : Type} (act : τ → Subscription σ → Subscription σ × τ × List (Notice ε σ)) :
    τ → List (Subscription σ) → List (Subscription σ) × τ × List (Notice ε σ)
  | t, [] => ([], t, [])
  | t, s :: rest =>
      let (s, t, ns) := act t s
      let (rest, t, ms) := visit act t rest
      (s :: rest, t, ns ++ ms)

/-- Does something to each subscription, in the order of the types and then of
the subscriptions. -/
def visitAll {τ : Type} (act : τ → Subscription σ → Subscription σ × τ × List (Notice ε σ)) :
    τ → List (TypeKey × List (Subscription σ)) →
      List (TypeKey × List (Subscription σ)) × τ × List (Notice ε σ)
  | t, [] => ([], t, [])
  | t, (k, ss) :: rest =>
      let (ss, t, ns) := visit act t ss
      let (rest, t, ms) := visitAll act t rest
      ((k, ss) :: rest, t, ns ++ ms)

/-- Registers an extension for a type. -/
def registerInstance [Extension ε] (f : Factory ε σ) (target : Descriptor) (e : ε) :
    Except RegistrationError (Factory ε σ × List (Notice ε σ)) :=
  match checkInstance target e with
  | .error err => .error err
  | .ok () =>
      let sequence := f.lastSequence + 1
      let (subscriptions, _, notices) := visitAll
        (fun (_ : Unit) s =>
          let (s, ns) := offerInstance target e s
          (s, (), ns)) () f.subscriptions.entries
      .ok ({ f with
        lastSequence := sequence
        instances := f.instances.set target.key ⟨target, e, sequence⟩
        subscriptions := ⟨subscriptions⟩ }, notices)

/-- Whether a constructor may be registered for a definition. -/
def checkGeneric (f : Factory ε σ) (definition : Descriptor) (c : Constructor ε) :
    Except RegistrationError Unit :=
  let roles := if c.usesRole then 1 else 0
  if !definition.isGenericDefinition then .error (.notGenericDefinition definition.fullName)
  else if c.arity ≠ definition.facts.arity + roles || (c.usesRole && f.role.isNone) then
    .error (.arityMismatch definition.fullName definition.facts.arity (c.arity - roles))
  else .ok ()

/-- The first of a type and its supertypes that is an instance of a definition. -/
def closedIn? (definition : TypeKey) (objectType : Descriptor) : Option Descriptor :=
  objectType.chain.find? fun d =>
    match d.definition with
    | some g => g.key = definition
    | none => false

/-- Compares a new constructor with what a subscriber has. -/
def offerGeneric (definition : TypeKey) (c : Constructor ε) (f : Factory ε σ) (s : Subscription σ) :
    Subscription σ × Factory ε σ × List (Notice ε σ) :=
  match closedIn? definition s.objectType with
  | none => (s, f, [])
  | some closed =>
      let claim : Claim := ⟨closed, true⟩
      if claim.overrides s.current then
        match f.obtain definition c closed with
        | (none, f, ns) => (s, f, ns)
        | (some e, f, ns) =>
            ({ s with current := some claim }, f,
              ns ++ [.delivered s.subscriber ⟨e, some claim⟩])
      else (s, f, [])

/-- Registers a constructor for a generic definition. -/
def registerGeneric (f : Factory ε σ) (definition : Descriptor) (c : Constructor ε) :
    Except RegistrationError (Factory ε σ × List (Notice ε σ)) :=
  match f.checkGeneric definition c with
  | .error err => .error err
  | .ok () =>
      let sequence := f.lastSequence + 1
      let f := { f with
        lastSequence := sequence
        made := ⟨f.made.entries.filter fun e => e.1.1 ≠ definition.key⟩
        failed := f.failed.filter fun e => e.1 ≠ definition.key
        generics := f.generics.set definition.key ⟨definition, c, sequence⟩ }
      let (subscriptions, f, notices) :=
        visitAll (offerGeneric definition.key c) f f.subscriptions.entries
      .ok ({ f with subscriptions := ⟨subscriptions⟩ }, notices)

/-! ## §4. Resolution. -/

/-- Where a candidate gets its extension from. -/
inductive Supply (ε : Type)
  | ready (e : ε)
  | toBuild (definition : TypeKey) (c : Constructor ε)

/-- A registration that applies to a type. -/
structure Candidate (ε : Type) where
  claim : Claim
  sequence : Nat
  supply : Supply ε

/-- The registrations for exactly one type. -/
def candidatesAt (f : Factory ε σ) (d : Descriptor) : List (Candidate ε) :=
  let instances := match f.instances.get? d.key with
    | some i => [⟨⟨i.target, false⟩, i.sequence, .ready i.extension⟩]
    | none => []
  let generics := match d.definition with
    | none => []
    | some g =>
        match f.generics.get? g.key with
        | none => []
        | some r =>
            if f.failed.contains (g.key, d.key) then []
            else [⟨⟨d, true⟩, r.sequence, .toBuild g.key r.constructor⟩]
  instances ++ generics

/-- The registrations for a type and its supertypes, in the order in which they
were made. -/
def candidates (f : Factory ε σ) (objectType : Descriptor) : List (Candidate ε) :=
  StableSort.sort (fun a b => a.sequence < b.sequence) (objectType.chain.flatMap f.candidatesAt)

/-- One step of the fold over the candidates. -/
def prefer (best : Option (Candidate ε)) (c : Candidate ε) : Option (Candidate ε) :=
  if c.claim.overrides (best.map (·.claim)) then some c else best

/-- The candidate that is preferred. -/
def winner? (f : Factory ε σ) (objectType : Descriptor) : Option (Candidate ε) :=
  (f.candidates objectType).foldl prefer none

/-- Looks for a registration; `fuel` bounds how many constructors may fail. -/
def lookup : (fuel : Nat) → Factory ε σ → (objectType : Descriptor) →
    Option (Resolved ε) × Factory ε σ × List (Notice ε σ)
  | 0, f, _ => (none, f, [])
  | fuel + 1, f, objectType =>
      match f.winner? objectType with
      | none => (none, f, [])
      | some ⟨claim, _, .ready e⟩ => (some ⟨e, some claim⟩, f, [])
      | some ⟨claim, _, .toBuild definition c⟩ =>
          match f.obtain definition c claim.target with
          | (some e, f, ns) => (some ⟨e, some claim⟩, f, ns)
          | (none, f, ns) =>
              let (r, f, ms) := lookup fuel f objectType
              (r, f, ns ++ ms)

/-- Looks for a registration.  Each failure sets a constructor aside for one type
of the chain, so there are no more failures than types in it. -/
def find (f : Factory ε σ) (objectType : Descriptor) :
    Option (Resolved ε) × Factory ε σ × List (Notice ε σ) :=
  lookup (objectType.chain.length + 1) f objectType

/-- Adds a subscription for what was just resolved. -/
def subscribe (f : Factory ε σ) (objectType : Descriptor) (r : Resolved ε) (s : σ) : Factory ε σ :=
  let known := (f.subscriptions.get? objectType.key).getD []
  { f with subscriptions :=
      f.subscriptions.set objectType.key (known ++ [⟨objectType, r.source, s⟩]) }

/-- The extension for a type; `fallback` makes one when no registration applies.
A subscriber gets this answer, and the better ones that come later. -/
def resolve (f : Factory ε σ) (objectType : Descriptor) (subscriber : Option σ)
    (fallback : Descriptor → ε) : Resolved ε × Factory ε σ × List (Notice ε σ) :=
  let (found, f, ns) := f.find objectType
  let (r, ns) : Resolved ε × List (Notice ε σ) := match found with
    | some r => (r, ns)
    | none => (⟨fallback objectType, none⟩, ns ++ [.fellBack objectType])
  match subscriber with
  | none => (r, f, ns)
  | some s => (r, f.subscribe objectType r s, ns ++ [.delivered s r])

/-! ## §5. Other operations. -/

/-- Forgets all registrations and subscriptions; sequence numbers go on. -/
def clear (f : Factory ε σ) : Factory ε σ :=
  { role := f.role, lastSequence := f.lastSequence, reportsFailures := f.reportsFailures }

/-- The targets of all registrations, in the order in which they were made. -/
def registeredTypes (f : Factory ε σ) : List Descriptor :=
  let all := f.instances.values.map (fun i => (i.sequence, i.target))
    ++ f.generics.values.map fun g => (g.sequence, g.definition)
  (StableSort.sort (fun a b => a.1 < b.1) all).map (·.2)

end Factory
end ValueText
