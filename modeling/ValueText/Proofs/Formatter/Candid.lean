/-
  ValueText.Proofs.Formatter.Candid — writings that leave no overflow pending.

  A piece of a displayed value that does not fit leaves its overflow pending in the builder,
  and an append that fails takes it away.  So only a value that says that all went well
  although a piece was refused leaves one behind.  A candid value does not say so; texts in
  pieces are candid.

      Display.Candid      the value says that something was refused
      HostWriting.Candid  the writing displays candid values only

  Main results:

    • `pending_candid`   a candid value leaves nothing pending where nothing was;
    • `Appends.pending`  neither does a writing whose writings of the host are candid.
-/
import ValueText.Proofs.Buffer.Displaying
import ValueText.Proofs.Formatter.Parallel

namespace ValueText

/-! ## §1. Candid values. -/

/-- The value does not say that all went well if a piece of it was refused. -/
def Display.Candid (v : Display) : Prop :=
  ∀ room, (v.outcome room).ok = true → (v.outcome room).refused = []

/-- A text in pieces gives up with the first piece that is refused. -/
theorem Display.candid_ofPieces (complete : Bool) (pieces : List String) :
    (ofPieces complete pieces).Candid := by
  induction pieces with
  | nil => exact fun room _ => rfl
  | cons s rest ih =>
      intro room hok
      unfold ofPieces outcome at hok ⊢
      dsimp only at hok ⊢
      by_cases hfit : (CodeUnit.encode s).length ≤ room
      · rw [if_pos hfit] at hok ⊢
        exact ih _ hok
      · rw [if_neg hfit] at hok
        cases hok

theorem Builder.pending_appendUnits (b : Builder) (us : List CodeUnit) :
    (b.appendUnits us).2.pending = b.pending := pending_reserve ..

/-- **A candid value leaves nothing pending where nothing was.** -/
theorem Builder.pending_candid {b : Builder} {v : Display} (h : b.Bounded) (hv : v.Candid)
    (hnone : b.pending = none) : (b.appendDisplay v).2.pending = none := by
  rw [pending_appendDisplay h v, pendingAfter]
  split
  · rfl
  · next hkept =>
      have hok : (v.outcome b.remaining).ok = true := by
        cases hshown : (v.outcome b.remaining).ok with
        | true => rfl
        | false => exact absurd ⟨rfl, hshown⟩ hkept
      rw [hv _ hok, blame_nil, hnone]

/-! ## §2. Candid writings. -/

/-- The writing displays candid values only, however it goes on. -/
def HostWriting.Candid : HostWriting → Prop
  | .done _ => True
  | .units _ next => ∀ answer, (next answer).Candid
  | .display v next => v.Candid ∧ ∀ answer, (next answer).Candid

theorem HostWriting.pending_run {w : HostWriting} : ∀ {b : Builder}, w.Candid → b.Bounded →
    b.pending = none → (w.run b).2.pending = none := by
  -- Induction on the writing, at the builder that each append leaves.
  induction w with
  | done answer => exact fun _ _ hnone => hnone
  | units us next ih =>
      intro b hw hb hnone
      exact ih _ (hw _) (hb.appendUnits us) ((b.pending_appendUnits us).trans hnone)
  | display v next ih =>
      intro b hw hb hnone
      exact ih _ (hw.2 _) (hb.appendDisplay v) (Builder.pending_candid hb hw.1 hnone)

/-- **What is made of appends leaves nothing pending**, if the writings of the host are candid. -/
theorem Writing.Appends.pending {w : Writing Unit} (h : Appends HostWriting.Candid w) :
    ∀ {b : Builder}, b.Bounded → b.pending = none → (w b).2.pending = none := by
  induction h with
  | nothing => exact fun _ hnone => hnone
  | @append f us h =>
      intro b _ hnone
      rw [run_append, h]
      exact (b.pending_appendUnits us).trans hnone
  | pieces ps =>
      intro b hb hnone
      unfold Writing.pieces
      rw [run_append, Builder.appendPieces_eq]
      exact Builder.pending_candid hb (Display.candid_ofPieces true ps) hnone
  | host hw => exact HostWriting.pending_run hw
  | @seq w w' hw _ ih ih' =>
      intro b hb hnone
      have hafter := ih hb hnone
      have hbounded := (hw.keeps hb).2
      rw [run_seq]
      cases (w b).1 with
      | error e => exact hafter
      | ok u => exact ih' hbounded hafter
  | @atomic w _ ih =>
      intro b hb hnone
      have hafter := ih hb hnone
      show (settle b (stopped (w b).1) (w b).2).pending = none
      unfold settle
      split
      · exact (Builder.pending_truncate ..).trans hafter
      · exact hafter

end ValueText
