/-
  ValueText.Buffer.Display — appending values that display themselves.

  A value displays itself by handing over pieces, and is told of each whether it was
  written.  It may go on as it likes, and says in the end whether all went well.  A builder
  takes the pieces back if not; if it was told that all went well it keeps what fitted,
  whatever was refused.

  Main definitions:

    • `sinkTo`         hands the pieces over, as the value wants it;
    • `appendDisplay`  appends a displayed value.

  Main results:

    • `appendDisplay_of_shown`, `appendDisplay_of_failed`  what is left of the pieces;
    • `appendPieces_eq`        a text in pieces is one of the displayed values.
-/
import ValueText.Buffer.Builder

namespace ValueText

/-- How a value displays itself: it hands over a piece, goes on as the answer makes it, and says in
the end whether all went well. -/
inductive Display
  | done (ok : Bool)
  | write (s : String) (next : Bool → Display)

namespace Display

/-- Hands over pieces up to the first that is refused; `complete` is what follows the last. -/
def ofPieces (complete : Bool) : List String → Display
  | [] => .done complete
  | s :: rest => .write s fun written => if written then ofPieces complete rest else .done false

/-- Writes the pieces of a value to a builder. -/
def sinkTo : Display → Builder → Bool × Builder
  | .done ok, b => (ok, b)
  | .write s next, b =>
      let (written, b) := b.sink s
      (next written).sinkTo b

end Display

namespace Builder

/-- Appends a displayed value, all of it or nothing. -/
def appendDisplay (b : Builder) (v : Display) : Appended :=
  match v.sinkTo b with
  | (true, b') => (.ok true, b')
  | (false, b') =>
      let b' := b'.truncate b.length
      match b'.pending with
      | some e => (.error e, { b' with pending := none })
      | none => (.ok false, b')

/-! ## What is left of the pieces. -/

variable {b : Builder} {v : Display}

@[simp] theorem pending_truncate (b : Builder) (n : Nat) : (b.truncate n).pending = b.pending := by
  unfold truncate
  split <;> rfl

/-- The answer of an append that fails while this is pending. -/
def failure : Option Overflow → Except Overflow Bool
  | some e => .error e
  | none => .ok false

theorem appendDisplay_of_shown (hyes : (v.sinkTo b).1 = true) :
    b.appendDisplay v = (.ok true, (v.sinkTo b).2) := by
  unfold appendDisplay
  split
  · next b' he => rw [he]
  · next b' he =>
      rw [he] at hyes
      cases hyes

theorem appendDisplay_of_failed (hno : (v.sinkTo b).1 = false) :
    b.appendDisplay v = (failure (v.sinkTo b).2.pending,
      { (v.sinkTo b).2.truncate b.length with pending := none }) := by
  unfold appendDisplay
  split
  · next b' he =>
      rw [he] at hno
      cases hno
  · next b' he =>
      dsimp only
      rw [he, pending_truncate]
      -- Where nothing is pending there is nothing to take away.
      cases hp : b'.pending with
      | some e => rfl
      | none =>
          have hnone : (b'.truncate b.length).pending = none := (pending_truncate ..).trans hp
          show (Except.ok false, b'.truncate b.length) =
            (Except.ok false, { b'.truncate b.length with pending := none })
          rw [← hnone]

/-- What holds of the builder with all pieces, and of the one without any of them, holds after the
append. -/
theorem appendDisplay_induct {P : Builder → Prop} (hshown : P (v.sinkTo b).2)
    (hfailed : P { (v.sinkTo b).2.truncate b.length with pending := none }) :
    P (b.appendDisplay v).2 := by
  cases hok : (v.sinkTo b).1 with
  | true =>
      rw [appendDisplay_of_shown hok]
      exact hshown
  | false =>
      rw [appendDisplay_of_failed hok]
      exact hfailed

/-! ## Texts in pieces. -/

theorem sinkAll_eq (complete : Bool) (pieces : List String) : ∀ b : Builder,
    b.sinkAll pieces complete = (Display.ofPieces complete pieces).sinkTo b := by
  induction pieces with
  | nil => exact fun b => rfl
  | cons s rest ih =>
      intro b
      unfold sinkAll Display.ofPieces Display.sinkTo
      cases hs : b.sink s with
      | mk written b₁ =>
      cases written with
      | true => exact ih b₁
      | false => rfl

/-- **A text in pieces is a displayed value.** -/
theorem appendPieces_eq (b : Builder) (pieces : List String) (complete : Bool) :
    b.appendPieces pieces complete = b.appendDisplay (.ofPieces complete pieces) := by
  unfold appendPieces
  rw [sinkAll_eq]
  rfl

end Builder
end ValueText
