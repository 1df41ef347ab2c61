/-
  ValueText.Buffer.Lending — builders that are rented until a guard lets them go.

  A guard is a name whose builder was rented from a pool.  What is done to the builder of
  a guard is done as to any other one, and it may even be exchanged for a builder that
  never was in the pool.  In the end the guard is released, which returns the builder that
  it has then to the pool, or detached, which leaves it to the caller.

  As long as there are guards of a pool, no other pool takes its name.
-/
import ValueText.Buffer.Workspace

namespace ValueText

namespace Workspace

/-- The name that a step gives to a builder, or takes away from one. -/
def Step.renames? : Step → Option String
  | .newBuilder b _ | .borrow b _ _ | .dropBuilder b | .take _ b | .giveBack _ b => some b
  | .rent _ _ keep => keep
  | _ => none

/-- The pool that a step makes, or uses. -/
def Step.serves? : Step → Option String
  | .newPool p _ | .take p _ | .giveBack p _ | .rent p _ _ => some p
  | _ => none

/-- Two names exchange their builders. -/
def exchange (w : Workspace) (b c : String) : Except Fault Workspace := do
  let i ← w.builderId b
  let j ← w.builderId c
  .ok { w with builderNames := (w.builderNames.set b j).set c i }

end Workspace

open Workspace (Step Reply Fault)

/-- A workspace, and its guards with the pools that their builders go back to. -/
structure Lending where
  workspace : Workspace := {}
  guards : Table String String := .empty

namespace Lending

/-- What is done in a workspace with guards. -/
inductive Deed
  | step (s : Step)
  | rent (p : String) (g : String)
  | release (g : String)
  | detach (g : String)
  | exchange (b : String) (c : String)

/-- Why a deed is refused. -/
inductive Refusal
  /-- By the workspace. -/
  | fault (f : Fault)
  /-- A name is a guard, or a pool has guards. -/
  | lent
  /-- A name is no guard. -/
  | unlent (name : String)

variable (l : Lending)

/-- Whether the name is a guard. -/
def isGuard (name : String) : Bool := l.guards.contains name

/-- Whether the builder with the name is there, and is not rented. -/
def owns (name : String) : Bool := l.workspace.builderNames.contains name && !l.isGuard name

/-- Whether a step leaves the names of the guards and of their pools alone.  Renting for
one text is not a step here but three deeds. -/
def admits (s : Step) : Bool :=
  !s.renames?.any l.isGuard &&
    match s with
    | .newPool p _ => !l.guards.values.contains p
    | .rent .. => false
    | _ => true

/-- Runs a step; these are the guards after it. -/
def carry (s : Step) (guards : Table String String) : Except Refusal (Reply × Lending) :=
  match l.workspace.step s with
  | .ok (r, w) => .ok (r, ⟨w, guards⟩)
  | .error f => .error (.fault f)

/-- Runs one deed. -/
def deed : Deed → Except Refusal (Reply × Lending)
  | .step s => if l.admits s then l.carry s l.guards else .error .lent
  | .rent p g => if l.isGuard g then .error .lent else l.carry (.take p g) (l.guards.set g p)
  | .release g =>
      match l.guards.get? g with
      | some p => l.carry (.giveBack p g) (l.guards.erase g)
      | none => .error (.unlent g)
  | .detach g =>
      if l.isGuard g then .ok (.done, { l with guards := l.guards.erase g })
      else .error (.unlent g)
  | .exchange b c =>
      match l.workspace.exchange b c with
      | .ok w => .ok (.done, { l with workspace := w })
      | .error f => .error (.fault f)

/-- The state after a deed; a refused one changes nothing. -/
def after (d : Deed) : Lending :=
  match l.deed d with
  | .ok (_, l') => l'
  | .error _ => l

/-- Runs deeds one after another. -/
def run (l : Lending) (deeds : List Deed) : Lending := deeds.foldl after l

end Lending
end ValueText
