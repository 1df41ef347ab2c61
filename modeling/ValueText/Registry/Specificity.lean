/-
  ValueText.Registry.Specificity — which of two registrations is preferred.

  A registration is a pair of its target and whether it is generic.  The more
  specific target is preferred; of two registrations for one type, the one that
  is not generic; otherwise the later one.
-/
import ValueText.Types.Descriptor

namespace ValueText

/-- What a registration is for. -/
structure Claim where
  target : Descriptor
  generic : Bool

/-- Whether a later registration takes the place of an earlier one. -/
def Claim.overrides (later : Claim) (earlier : Option Claim) : Bool :=
  match earlier with
  | none => true
  | some e =>
      if later.target.key = e.target.key then !(later.generic && !e.generic)
      else if e.target.isAssignableFrom later.target then true
      else !later.target.isAssignableFrom e.target

end ValueText
