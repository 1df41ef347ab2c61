/-
  ValueText.Formatter.Writing — sequences of appends.

  A formatter writes by appending to a builder.  Appends follow one another until
  one reports an error; that an append did not fit under the reporting policy
  does not stop the sequence.  `atomic` takes all of it back if any append did not
  fit, under either policy.

  Formatters of the host do as they like with the answers of their appends
  (`HostWriting`).
-/
import ValueText.Buffer.Display

namespace ValueText

/-- A sequence of appends to a builder. -/
abbrev Writing := ExceptT Overflow (StateM Builder)

namespace Writing

/-- Runs a sequence of appends. -/
def on (w : Writing Unit) (b : Builder) : Except Overflow Unit × Builder := w b

/-- A single append; whether it fitted does not matter to those that follow. -/
def append (f : Builder → Appended) : Writing Unit := fun b =>
  let (r, b) := f b
  (r.map fun _ => (), b)

/-- Appends a text. -/
def text (s : String) : Writing Unit := append (·.appendText s)

/-- Appends units. -/
def units (us : List CodeUnit) : Writing Unit := append (·.appendUnits us)

/-- Appends texts, one after another. -/
def texts : List String → Writing Unit
  | [] => pure ()
  | s :: rest => do
      text s
      texts rest

/-- Appends a text that comes in pieces, all of them or none. -/
def pieces (ps : List String) : Writing Unit := append (·.appendPieces ps true)

/-- What is left of the appends since `before`: nothing if they failed or any of
them did not fit. -/
def settle (before : Builder) (failed : Bool) (after : Builder) : Builder :=
  if failed || after.overflows ≠ before.overflows then after.truncate before.length else after

/-- Whether a sequence of appends was stopped. -/
def stopped : Except Overflow Unit → Bool
  | .ok _ => false
  | .error _ => true

/-- Appends everything or nothing. -/
def atomic (w : Writing Unit) : Writing Unit := fun b =>
  let (r, after) := w b
  (r, settle b (stopped r) after)

/-- Appends the word for null. -/
def null : Writing Unit := text "null"

/-- Appends a text in braces. -/
def braced (s : String) : Writing Unit := atomic (texts ["\x7b", s, "\x7d"])

end Writing

/-! ## Formatters of the host. -/

/-- How a formatter of the host writes: it appends units or a value that displays itself, goes on
as the answer makes it, and answers something in the end. -/
inductive HostWriting
  | done (answer : Except Overflow Unit)
  | units (us : List CodeUnit) (next : Except Overflow Bool → HostWriting)
  | display (v : Display) (next : Except Overflow Bool → HostWriting)

namespace HostWriting

/-- What comes of a formatter of the host. -/
def run : HostWriting → Writing Unit
  | .done answer, b => (answer, b)
  | .units us next, b =>
      let (r, b) := b.appendUnits us
      (next r).run b
  | .display v next, b =>
      let (r, b) := b.appendDisplay v
      (next r).run b

/-- Goes on after an append unless it answered an error. -/
def proceed (rest : HostWriting) : Except Overflow Bool → HostWriting
  | .ok _ => rest
  | .error e => .done (.error e)

/-- Appends texts, one after another. -/
def texts : List String → HostWriting
  | [] => .done (.ok ())
  | s :: rest => .units (CodeUnit.encode s) (texts rest).proceed

/-- Appending texts is what it is for other formatters. -/
theorem run_texts (ss : List String) : (texts ss).run = Writing.texts ss := by
  induction ss with
  | nil => rfl
  | cons s rest ih =>
      funext b
      show ((texts rest).proceed (b.appendText s).1).run (b.appendText s).2 =
        ExceptT.bindCont (fun _ => Writing.texts rest) ((b.appendText s).1.map fun _ => ())
          (b.appendText s).2
      cases (b.appendText s).1 with
      | error e => rfl
      | ok fitted => exact congrFun ih _

end HostWriting
end ValueText
