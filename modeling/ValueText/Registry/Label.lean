/-
  ValueText.Registry.Label — extensions that are only labels.

  A factory of labels shows how registrations are resolved, apart from what the
  extensions do.  Constructors of labels name their arguments, and refuse those
  whose simple name they are told to reject.
-/
import ValueText.Registry.Factory

namespace ValueText

/-- A text, and the type that it is meant for if it is meant for one. -/
structure Label where
  text : String
  valueType : Option Descriptor := none

namespace Label

instance : Extension Label := ⟨fun l => l.valueType⟩

/-- The label of a type without a registration. -/
def fallback (d : Descriptor) : Label := ⟨"default " ++ d.name, none⟩

/-- Builds an extension from a label and its arguments, unless an argument is
rejected. -/
def build {ε : Type} (label : String) (rejected : List String)
    (make : (closed : Descriptor) → (label : String) → ε) (closed : Descriptor)
    (arguments : List Descriptor) : Except InstantiationError ε :=
  match arguments.find? fun a => rejected.contains a.name with
  | some a => .error ⟨closed.fullName, "rejected " ++ a.name⟩
  | none =>
      .ok (make closed (label ++ "(" ++ ",".intercalate (arguments.map (·.fullName)) ++ ")"))

end Label

/-! ## Lines for notices. -/

/-- A line for the run of a constructor that is recorded under a name. -/
def Notice.runLine (label : Option String) (closed : Descriptor) (arguments : List Descriptor) :
    List String :=
  match label with
  | some l => ["build " ++ l ++ " " ++ closed.fullName ++ " ["
      ++ ",".intercalate (arguments.map (·.fullName)) ++ "]"]
  | none => []

/-- The lines for what constructors did. -/
def Notice.constructorLines {ε σ : Type} : Notice ε σ → List String
  | .built l closed arguments => runLine l closed arguments
  | .failed e => ["failed " ++ e.message]
  | .fellBack _ | .delivered .. => []

/-- The lines for everything that a factory of labels did. -/
def Notice.labelLines : Notice Label String → List String
  | .fellBack d => ["fallback " ++ d.fullName]
  | .delivered w r =>
      let source := match r.registeredType? with
        | some d => d.fullName
        | none => "fallback"
      ["update " ++ w ++ " " ++ r.extension.text ++ " from " ++ source
        ++ if r.isGeneric then " generic" else ""]
  | n => n.constructorLines

end ValueText
