/-
  ValueText.Registry.Error — what can go wrong with registrations.

  A registration is refused for one of four reasons.  A constructor of generic
  extensions can fail later, for one closed type at a time.
-/
import ValueText.Text.Numeral

namespace ValueText

/-- Why a registration is refused. -/
inductive RegistrationError
  /-- An extension for one type was registered for a generic definition. -/
  | openGenericTarget (target : String)
  /-- A constructor was registered for a type that is no generic definition. -/
  | notGenericDefinition (target : String)
  /-- A constructor takes another number of arguments than the definition has. -/
  | arityMismatch (target : String) (targetArity extensionArity : Nat)
  /-- The extension is written for a type that has nothing to do with the target. -/
  | incompatibleExtension (target extensionType : String)
  deriving DecidableEq, Repr

/-- The wording of a refusal. -/
def RegistrationError.message : RegistrationError → String
  | .openGenericTarget target =>
      "type `" ++ target
        ++ "` is an open generic definition; register a generic constructor instead"
  | .notGenericDefinition target => "type `" ++ target ++ "` is not a generic type definition"
  | .arityMismatch target targetArity extensionArity =>
      "generic extension takes " ++ Numeral.ofNat extensionArity ++ " type arguments but `" ++ target
        ++ "` has " ++ Numeral.ofNat targetArity
  | .incompatibleExtension target extensionType =>
      "extension for `" ++ extensionType ++ "` cannot be registered for `" ++ target ++ "`"

/-- A constructor could not make an extension for a closed type. -/
structure InstantiationError where
  definition : String
  reason : String
  deriving DecidableEq, Repr

/-- The wording of a failed construction. -/
def InstantiationError.message (e : InstantiationError) : String :=
  "cannot instantiate generic extension for `" ++ e.definition ++ "`: " ++ e.reason

end ValueText
