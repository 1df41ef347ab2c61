/-
  ValueText.Proofs.Buffer.Displaying — which overflow an append of a displayed value reports.

  A value that displays itself may go on after a piece was refused, and says in the end
  whether all went well.  What is reported of a failure is the overflow that is pending in
  the builder: the one of the last piece that did not fit, or one that was left there
  before.

  Nothing but a piecewise write touches that overflow.  A write that is not part of a
  displayed value leaves its overflow there, and clearing or returning the builder to a
  pool does not take it away.

      outcome        what comes of it where there is room for so many units
      Event          a step of a session, or an append of any displayed value
      LeavesPending  an event after which an overflow is pending

  Main results:

    • `shown_sinkTo`      the pieces that fit are written, the others are accounted for;
    • `pending_happen`    what one event leaves pending, in each builder;
    • `leaves_of_pending` an overflow that is pending was left by an event of the session;
    • `append_display`    what an append of a displayed value answers in any session.

  The last comes with an overflow that is reported of a value of which each piece fits.
-/
import ValueText.Proofs.Buffer.Appending

namespace ValueText

/-! ## §1. Displayed values. -/

namespace Display

/-- What comes of displaying a value. -/
structure Outcome where
  ok : Bool
  /-- The units of the pieces that fitted. -/
  written : List CodeUnit := []
  /-- The pieces that did not fit: how many units each has, and how many fitted then. -/
  refused : List Overflow := []

/-- What comes of displaying a value where there is room for so many units. -/
def outcome : Display → (room : Nat) → Outcome
  | .done ok, _ => { ok := ok }
  | .write s next, room =>
      let units := CodeUnit.encode s
      if units.length ≤ room then
        let o := (next true).outcome (room - units.length)
        { o with written := units ++ o.written }
      else
        let o := (next false).outcome room
        { o with refused := ⟨units.length, room⟩ :: o.refused }

end Display

namespace Builder

variable {b b' : Builder} {v : Display}

/-! ## §2. Writing the pieces. -/

/-- The overflow that is pending after some were met. -/
def blame (policy : OverflowPolicy) (refused : List Overflow) (before : Option Overflow) :
    Option Overflow :=
  match policy with
  | .report => before
  | .error => refused.getLast?.or before

theorem blame_nil (policy : OverflowPolicy) (before : Option Overflow) :
    blame policy [] before = before := by cases policy <;> rfl

/-- A refused piece is blamed, unless a later one is. -/
theorem blame_cons (policy : OverflowPolicy) (e : Overflow) (es : List Overflow)
    (before : Option Overflow) :
    blame policy es (blame policy [e] before) = blame policy (e :: es) before := by
  cases policy with
  | report => rfl
  | error =>
      show es.getLast?.or (some e) = (e :: es).getLast?.or before
      rw [List.getLast?_cons]
      cases es.getLast? <;> rfl

theorem blame_eq_none {policy : OverflowPolicy} {refused : List Overflow}
    {before : Option Overflow} (h : policy = .report → before = none) :
    blame policy refused before = none ↔ policy = .report ∨ refused = [] ∧ before = none := by
  cases policy with
  | report => simp only [blame, h rfl, true_or]
  | error =>
      simp only [blame, Option.or_eq_none_iff, List.getLast?_eq_none_iff, reduceCtorEq, false_or]

theorem blame_eq_some {policy : OverflowPolicy} {refused : List Overflow}
    {before : Option Overflow} (h : policy = .report → before = none) (e : Overflow) :
    blame policy refused before = some e ↔
      policy = .error ∧ refused.getLast? = some e ∨ refused = [] ∧ before = some e := by
  cases policy with
  | report => simp only [blame, h rfl, reduceCtorEq, false_and, and_false, or_false]
  | error => simp only [blame, Option.or_eq_some_iff, List.getLast?_eq_none_iff, true_and]

/-- `b'` is `b` after a value with this outcome was displayed. -/
structure Shown (b : Builder) (o : Display.Outcome) (b' : Builder) : Prop where
  units : b'.units = b.units ++ o.written
  ahead : Ahead b (UInt64.ofNat o.refused.length) b'
  pending : b'.pending = blame b.policy o.refused b.pending

theorem sink_of_lt {s : String} (hfull : b.remaining < (CodeUnit.encode s).length) :
    b.sink s = (false, { b.refused with
      pending := blame b.policy [⟨(CodeUnit.encode s).length, b.remaining⟩] b.pending }) := by
  have happend : b.appendText s = (b.refusal (CodeUnit.encode s).length, b.refused) :=
    appendUnits_of_lt hfull
  unfold sink
  rw [happend]
  unfold refusal blame refused
  cases b.policy <;> rfl

theorem Ahead.forget {n : UInt64} (h : Ahead b n b') (p : Option Overflow) :
    Ahead b n { b' with pending := p } :=
  ⟨h.length, h.memory, h.version, h.capacity, h.policy, h.overflows⟩

/-- **The pieces that fit are written, and of the others the last is pending.** -/
theorem shown_sinkTo (v : Display) : ∀ {b : Builder}, b.Bounded →
    (v.sinkTo b).1 = (v.outcome b.remaining).ok ∧
      Shown b (v.outcome b.remaining) (v.sinkTo b).2 ∧ (v.sinkTo b).2.Bounded := by
  induction v with
  | done ok =>
      intro b h
      exact ⟨rfl, ⟨(List.append_nil _).symm, (Lands.nil b).ahead, (blame_nil _ _).symm⟩, h⟩
  | write s next ih =>
      intro b h
      unfold Display.sinkTo Display.outcome
      dsimp only
      by_cases hfit : (CodeUnit.encode s).length ≤ b.remaining
      · obtain ⟨hyes, hlands⟩ := lands_sink h hfit
        obtain ⟨hok, hshown, hbounded⟩ := ih true (h.sink s)
        rw [if_pos hfit, hyes]
        rw [hlands.remaining] at hok hshown
        refine ⟨hok, ⟨?_, ?_, ?_⟩, hbounded⟩
        · rw [hshown.units, hlands.units, List.append_assoc]
        · have hahead := hlands.ahead.trans hshown.ahead
          rwa [UInt64.zero_add] at hahead
        · rw [hshown.pending, hlands.policy, hlands.pending]
      · obtain ⟨hok, hshown, hbounded⟩ := ih false (h.sink s)
        have hsink := sink_of_lt (Nat.lt_of_not_le hfit)
        rw [hsink] at hok hshown hbounded ⊢
        rw [if_neg hfit]
        refine ⟨hok, ⟨hshown.units, ?_, ?_⟩, hbounded⟩
        · have hrefused := b.ahead_refused.forget (blame b.policy
            [⟨(CodeUnit.encode s).length, b.remaining⟩] b.pending)
          have hahead := hrefused.trans hshown.ahead
          rw [List.length_cons, Nat.add_comm, UInt64.ofNat_add]
          exact hahead
        · rw [hshown.pending]
          exact blame_cons _ _ _ _

/-! ## §3. The append. -/

theorem failure_eq_error {p : Option Overflow} {e : Overflow} :
    failure p = .error e ↔ p = some e := by
  cases p <;> simp [failure]

theorem failure_eq_ok {p : Option Overflow} : failure p = .ok false ↔ p = none := by
  cases p <;> simp [failure]

/-- A value that is displayed well is written as far as it fits. -/
theorem shown_appendDisplay (h : b.Bounded) (hok : (v.outcome b.remaining).ok = true) :
    (b.appendDisplay v).1 = .ok true ∧ Shown b (v.outcome b.remaining) (b.appendDisplay v).2 := by
  obtain ⟨hyes, hshown, -⟩ := shown_sinkTo v h
  unfold appendDisplay
  split
  · next b' he =>
      rw [he] at hshown
      exact ⟨rfl, hshown⟩
  · next b' he =>
      rw [he] at hyes
      cases hyes.trans hok

/-- **A value whose display fails is taken back**, and the overflow that is pending by then is
the answer. -/
theorem restored_appendDisplay (h : b.Bounded) (hno : (v.outcome b.remaining).ok = false) :
    (b.appendDisplay v).1 =
        failure (blame b.policy (v.outcome b.remaining).refused b.pending) ∧
      Restored b (UInt64.ofNat (v.outcome b.remaining).refused.length) (b.appendDisplay v).2 ∧
      (b.appendDisplay v).2.pending = none := by
  obtain ⟨hfail, hshown, -⟩ := shown_sinkTo v h
  rw [appendDisplay_of_failed (hfail.trans hno), hshown.pending]
  exact ⟨rfl, hshown.ahead.restored.forget none, rfl⟩

/-! ## §4. What edits leave pending. -/

/-- What is pending after a value is displayed.  A display that fails takes it away if its pieces
land together or not at all. -/
def pendingAfter (b : Builder) (whole : Bool) (v : Display) : Option Overflow :=
  if whole = true ∧ (v.outcome b.remaining).ok = false then none
  else blame b.policy (v.outcome b.remaining).refused b.pending

theorem pending_appendDisplay (h : b.Bounded) (v : Display) :
    (b.appendDisplay v).2.pending = b.pendingAfter true v := by
  unfold pendingAfter
  cases hok : (v.outcome b.remaining).ok with
  | true =>
      rw [if_neg (by decide)]
      exact (shown_appendDisplay h hok).2.pending
  | false =>
      rw [if_pos ⟨rfl, rfl⟩]
      exact (restored_appendDisplay h hok).2.2

theorem pending_sink_eq (h : b.Bounded) (s : String) :
    (b.sink s).2.pending = b.pendingAfter false (.write s .done) :=
  (shown_sinkTo (.write s .done) h).2.1.pending

theorem pending_terminate (b : Builder) : b.terminate.2.pending = b.pending := by
  unfold terminate overflow
  split
  · rfl
  · cases b.policy with
    | error => rfl
    | report =>
        dsimp only
        split <;> rfl

theorem pending_dispose (b : Builder) (shared : Bool) : (b.dispose shared).pending = b.pending := by
  unfold dispose
  split
  · rfl
  · cases shared <;> rfl

theorem pending_set? {i : Nat} {u : CodeUnit} (h : b.set? i u = some b') :
    b'.pending = b.pending := by
  obtain ⟨r, -, rfl⟩ := Option.map_eq_some_iff.mp h
  rfl

/-- Renting, returning and dropping leave alone what is pending. -/
theorem Handled.pending (h : Handled b b') : b'.pending = b.pending := by
  obtain ⟨b₁, happended, b₂, hcleared, hdiscarded⟩ := h
  have h₁ : b₁.pending = b.pending := by
    rcases happended with rfl | ⟨s, rfl⟩
    · rfl
    · exact pending_reserve ..
  have h₂ : b₂.pending = b₁.pending := by rcases hcleared with rfl | rfl <;> rfl
  have h₃ : b'.pending = b₂.pending := by
    rcases hdiscarded with rfl | ⟨shared, rfl⟩
    · rfl
    · exact pending_dispose _ _
  exact h₃.trans (h₂.trans h₁)

end Builder

namespace Workspace

open Builder (blame pendingAfter)

variable {w w' : Workspace} {id : BuilderId} {b b' : Builder}

/-- What an edit writes in pieces, and whether these land together or not at all. -/
def Edit.displays? : Edit → Option (Bool × Display)
  | .sink s => some (false, .write s .done)
  | .pieces ps complete => some (true, .ofPieces complete ps)
  | _ => none

/-- What is pending after something was displayed, or after nothing was. -/
def stillPending (b : Builder) : Option (Bool × Display) → Option Overflow
  | none => b.pending
  | some (whole, v) => b.pendingAfter whole v

/-- **Nothing but a piecewise write changes what is pending.** -/
theorem pending_edited (h : b.Bounded) (e : Edit) :
    (w.edited id b e).pending = stillPending b e.displays? := by
  cases e with
  | sink s => exact Builder.pending_sink_eq h s
  | pieces ps complete =>
      show (b.appendPieces ps complete).2.pending = _
      rw [Builder.appendPieces_eq]
      exact Builder.pending_appendDisplay h _
  | builder other =>
      simp only [edited]
      cases w.builder? other with
      | none => rfl
      | some o => exact Builder.pending_reserve ..
  | snapshot name =>
      simp only [edited]
      cases w.reading? name with
      | none => rfl
      | some us => exact Builder.pending_reserve ..
  | terminate => exact b.pending_terminate
  | clear => rfl
  | dispose => exact b.pending_dispose _
  | truncate n => exact b.pending_truncate n
  | get i => rfl
  | set i u =>
      simp only [edited]
      cases hset : b.set? i u with
      | none => rfl
      | some b' => exact Builder.pending_set? hset
  | _ => exact Builder.pending_reserve ..

/-! ## §5. Sessions in which values are displayed. -/

/-- Appends a displayed value to a named builder. -/
def display (w : Workspace) (name : String) (v : Display) : Except Fault (Reply × Workspace) := do
  let (id, t) ← w.builder name
  let r := t.builder.appendDisplay v
  .ok (.ofAppend r.1, w.setBuilder id r.2)

/-- A step of a session, or an append of a displayed value. -/
inductive Event
  | step (s : Step)
  | display (name : String) (v : Display)

/-- The workspace after an event; a refused one changes nothing. -/
def happen (w : Workspace) : Event → Workspace
  | .step s => w.after s
  | .display name v =>
      match w.display name v with
      | .ok (_, w') => w'
      | .error _ => w

/-- The workspace after events, one after another. -/
def happenAll (w : Workspace) (es : List Event) : Workspace := es.foldl happen w

/-- What an event displays to the builder `id`. -/
def Event.displays? (w : Workspace) (id : BuilderId) : Event → Option (Bool × Display)
  | .step (.edit name e) => if w.builderNames.get? name = some id then e.displays? else none
  | .step _ => none
  | .display name v => if w.builderNames.get? name = some id then some (true, v) else none

/-- A refused step has displayed nothing. -/
theorem displays?_of_refused {s : Step} {f : Fault} (hb : w.builderAt? id = some b)
    (h : w.step s = .error f) : (Event.step s).displays? w id = none := by
  cases s with
  | edit name e =>
      show (if w.builderNames.get? name = some id then e.displays? else none) = none
      split
      · next hid =>
          obtain ⟨t, ht, -⟩ := builder_of_named hid hb
          rw [step, ht] at h
          -- Edits that display something are not refused.
          cases e with
          | sink s => cases h
          | pieces ps complete => cases h
          | _ => rfl
      · rfl
  | _ => rfl

/-- What is pending in a builder after an event, and in one that is new. -/
def Tracked (w : Workspace) (id : BuilderId) (ev : Event) (b' : Builder) : Prop :=
  (w.builderAt? id = none ∧ b'.pending = none) ∨
    ∃ b, w.builderAt? id = some b ∧ b'.pending = stillPending b (ev.displays? w id)

/-- The builder of a name was changed, and something was displayed to it or nothing. -/
theorem tracked_setBuilder {ev : Event} {name : String} {i : BuilderId} {b₀ b₁ : Builder}
    {d : Option (Bool × Display)} (hname : w.builderNames.get? name = some i)
    (h₀ : w.builderAt? i = some b₀)
    (hev : ∀ id, ev.displays? w id = if w.builderNames.get? name = some id then d else none)
    (hchanged : b₁.pending = stillPending b₀ d)
    (hb' : (w.setBuilder i b₁).builderAt? id = some b') : w.Tracked id ev b' := by
  rw [builderAt?_setBuilder] at hb'
  by_cases hid : id = i
  · subst hid
    rw [if_pos rfl, h₀] at hb'
    cases hb'
    exact .inr ⟨b₀, h₀, by rw [hev, if_pos hname]; exact hchanged⟩
  · rw [if_neg hid] at hb'
    have hne : w.builderNames.get? name ≠ some id :=
      fun hc => hid (Option.some.inj (hc.symm.trans hname))
    exact .inr ⟨b', hb', by rw [hev, if_neg hne]; rfl⟩

theorem tracked_after (hw : w.Bounded) {s : Step} (hb' : (w.after s).builderAt? id = some b') :
    w.Tracked id (.step s) b' := by
  cases hs : w.step s with
  | error f =>
      rw [after, hs] at hb'
      exact .inr ⟨b', hb', by rw [displays?_of_refused hb' hs]; rfl⟩
  | ok o =>
      obtain ⟨r, w'⟩ := o
      rw [after_of_step hs] at hb'
      by_cases he : ∃ name e, s = .edit name e
      · obtain ⟨name, e, rfl⟩ := he
        obtain ⟨t, hname, ht, hedit⟩ := edit_eq_ok hs
        rw [builderAt?_edited ht hedit] at hb'
        exact tracked_setBuilder (builderId_eq_ok hname) ht (fun _ => rfl)
          (pending_edited (hw _ _ ht) e) hb'
      · -- Every other step hands builders around.
        have hnone : (Event.step s).displays? w id = none := by
          cases s with
          | edit name e => exact absurd ⟨name, e, rfl⟩ he
          | _ => rfl
        obtain ⟨o, ho, hrel⟩ := tended_step hs (fun name e hc => he ⟨name, e, hc⟩) id
        rw [hb'] at hrel
        cases hrel with
        | some hh =>
            rcases ho with ho | ⟨hfresh, r, policy, -, ho⟩
            · exact .inr ⟨_, ho.symm, by rw [hnone]; exact hh.pending⟩
            · cases ho
              exact .inl ⟨hfresh, hh.pending⟩

/-- **What one event leaves pending** in each builder. -/
theorem pending_happen (hw : w.Bounded) {ev : Event} (hb' : (w.happen ev).builderAt? id = some b') :
    w.Tracked id ev b' := by
  cases ev with
  | step s => exact tracked_after hw hb'
  | display name v =>
      cases hd : w.display name v with
      | error f =>
          rw [happen, hd] at hb'
          refine .inr ⟨b', hb', ?_⟩
          rw [Event.displays?, if_neg]
          · rfl
          · intro hid
            obtain ⟨t, ht, -⟩ := builder_of_named hid hb'
            rw [display, ht] at hd
            cases hd
      | ok o =>
          rw [happen, hd] at hb'
          obtain ⟨t, hbuilder, hok⟩ := ok_of_bind hd
          obtain ⟨hname, ht⟩ := builder_eq_ok hbuilder
          have hat := builderAt?_of_tenant ht
          cases hok
          exact tracked_setBuilder (builderId_eq_ok hname) hat (fun _ => rfl)
            (Builder.pending_appendDisplay (hw _ _ hat) v) hb'

theorem Bounded.happen (hw : w.Bounded) (ev : Event) : (w.happen ev).Bounded := by
  cases ev with
  | step s => exact hw.after s
  | display name v =>
      cases hd : w.display name v with
      | error f => rwa [Workspace.happen, hd]
      | ok o =>
          obtain ⟨t, hbuilder, hok⟩ := ok_of_bind hd
          have hat := builderAt?_of_tenant (builder_eq_ok hbuilder).2
          rw [Workspace.happen, hd]
          cases hok
          intro id b hb
          rw [builderAt?_setBuilder] at hb
          split at hb
          · rw [hat] at hb
            cases hb
            exact (hw _ _ hat).appendDisplay v
          · exact hw id b hb

theorem Bounded.happenAll (es : List Event) : ∀ {w : Workspace}, w.Bounded →
    (w.happenAll es).Bounded := by
  induction es with
  | nil => exact id
  | cons ev es ih => exact fun hw => ih (hw.happen ev)

/-- The event leaves the overflow `e` pending in the builder `id`: a piece of this size did not fit
there, none after it was refused, and no append failed that takes its overflow away. -/
def LeavesPending (w : Workspace) (id : BuilderId) (ev : Event) (e : Overflow) : Prop :=
  ∃ b whole v, w.builderAt? id = some b ∧ ev.displays? w id = some (whole, v) ∧
    b.policy = .error ∧ (v.outcome b.remaining).refused.getLast? = some e ∧
    ¬ (whole = true ∧ (v.outcome b.remaining).ok = false)

/-- What is pending after an event was pending before, or the event leaves it. -/
theorem leaves_of_tracked (hw : w.Bounded) {ev : Event} {e : Overflow} (h : w.Tracked id ev b')
    (he : b'.pending = some e) :
    (∃ b, w.builderAt? id = some b ∧ b.pending = some e) ∨ w.LeavesPending id ev e := by
  rcases h with ⟨-, hnone⟩ | ⟨b, hb, hpending⟩
  · cases hnone.symm.trans he
  · rw [he] at hpending
    cases hd : ev.displays? w id with
    | none => exact .inl ⟨b, hb, by rw [hpending, hd]; rfl⟩
    | some d =>
        rw [hd, stillPending, pendingAfter] at hpending
        split at hpending
        · cases hpending
        · next hkept =>
            rcases (Builder.blame_eq_some (hw id b hb).pending e).mp hpending.symm with
              ⟨hpolicy, hlast⟩ | ⟨-, hbefore⟩
            · exact .inr ⟨b, d.1, d.2, hb, hd, hpolicy, hlast, hkept⟩
            · exact .inl ⟨b, hb, hbefore⟩

/-- What is pending after events was pending before them, or one of them leaves it. -/
theorem leaves_of_pending {e : Overflow} (es : List Event) : ∀ {w : Workspace}, w.Bounded →
    (w.happenAll es).builderAt? id = some b' → b'.pending = some e →
      (∃ b, w.builderAt? id = some b ∧ b.pending = some e) ∨
        ∃ earlier ev later, es = earlier ++ ev :: later ∧
          (w.happenAll earlier).LeavesPending id ev e := by
  induction es with
  | nil => exact fun _ hb' he => .inl ⟨b', hb', he⟩
  | cons ev es ih =>
      intro w hw hb' he
      rcases ih (hw.happen ev) hb' he with ⟨b, hb, hbefore⟩ | ⟨earlier, ev', later, rfl, hleaves⟩
      · rcases leaves_of_tracked hw (pending_happen hw hb) hbefore with hstart | hleaves
        · exact .inl hstart
        · exact .inr ⟨[], ev, es, rfl, hleaves⟩
      · exact .inr ⟨ev :: earlier, ev', later, rfl, hleaves⟩

/-! ## §6. What an append answers. -/

/-- **An append of a displayed value, in any session.**  A value that is displayed well is written
as far as its pieces fit.  Otherwise the content is as before, and the answer is the overflow of
the last piece that did not fit; if every piece fitted, it is the overflow that an earlier event
has left in the builder. -/
theorem append_display (es : List Event) (hb : (happenAll {} es).builderAt? id = some b)
    (v : Display) :
    ((v.outcome b.remaining).ok = true →
        (b.appendDisplay v).1 = .ok true ∧
          (b.appendDisplay v).2.units = b.units ++ (v.outcome b.remaining).written) ∧
      ((v.outcome b.remaining).ok = false →
        Builder.Restored b (UInt64.ofNat (v.outcome b.remaining).refused.length)
            (b.appendDisplay v).2 ∧
          (b.appendDisplay v).2.pending = none) ∧
      (∀ e, (b.appendDisplay v).1 = .error e ↔
        (v.outcome b.remaining).ok = false ∧
          (b.policy = .error ∧ (v.outcome b.remaining).refused.getLast? = some e ∨
            (v.outcome b.remaining).refused = [] ∧ b.pending = some e)) ∧
      ((b.appendDisplay v).1 = .ok false ↔
        (v.outcome b.remaining).ok = false ∧
          (b.policy = .report ∨ (v.outcome b.remaining).refused = [] ∧ b.pending = none)) ∧
      (∀ e, b.pending = some e → b.policy = .error ∧
        ∃ earlier ev later, es = earlier ++ ev :: later ∧
          (happenAll {} earlier).LeavesPending id ev e) ∧
      (∀ complete pieces, v = .ofPieces complete pieces →
        b.appendPieces pieces complete = b.appendDisplay v) := by
  have h : b.Bounded := (bounded_run []).happenAll es id b hb
  have hleft : ∀ e, b.pending = some e → b.policy = .error ∧
      ∃ earlier ev later, es = earlier ++ ev :: later ∧
        (happenAll {} earlier).LeavesPending id ev e := by
    intro e he
    have hpolicy : b.policy = .error := by
      cases hp : b.policy with
      | error => rfl
      | report => cases (h.pending hp).symm.trans he
    rcases leaves_of_pending es (bounded_run []) hb he with ⟨b₀, hstart, -⟩ | hleaves
    · cases hstart
    · exact ⟨hpolicy, hleaves⟩
  have hpieces : ∀ complete pieces, v = .ofPieces complete pieces →
      b.appendPieces pieces complete = b.appendDisplay v :=
    fun complete pieces hv => hv ▸ b.appendPieces_eq pieces complete
  cases hok : (v.outcome b.remaining).ok with
  | true =>
      obtain ⟨hanswer, hshown⟩ := Builder.shown_appendDisplay h hok
      refine ⟨fun _ => ⟨hanswer, hshown.units⟩, nofun, fun e => ?_, ?_, hleft, hpieces⟩
      · rw [hanswer]
        exact ⟨nofun, nofun⟩
      · rw [hanswer]
        exact ⟨nofun, nofun⟩
  | false =>
      obtain ⟨hanswer, hrestored⟩ := Builder.restored_appendDisplay h hok
      refine ⟨nofun, fun _ => hrestored, fun e => ?_, ?_, hleft, hpieces⟩
      · rw [hanswer, Builder.failure_eq_error, Builder.blame_eq_some h.pending, and_iff_right rfl]
      · rw [hanswer, Builder.failure_eq_ok, Builder.blame_eq_none h.pending, and_iff_right rfl]

/-- A builder of a pool with room for two more units. -/
def halfFull : List Event :=
  [.step (.newPool "p" ⟨⟨4, .error⟩, 1⟩), .step (.take "p" "a"), .step (.edit "a" (.text "ab"))]

/-- A value that goes on with shorter pieces when one is refused. -/
def stubborn : Display :=
  .write "cde" fun _ => .write "c" fun _ => .write "xyz" fun written => .done written

/-- The last of the refused pieces is reported, with the room that the written one has left. -/
theorem append_display_stubborn :
    ∃ b, (happenAll {} halfFull).builderAt? ⟨0⟩ = some b ∧
      (b.appendDisplay stubborn).1 = .error ⟨3, 1⟩ ∧ (b.appendDisplay stubborn).2.units = b.units ∧
      (b.appendDisplay stubborn).2.overflows = b.overflows + 2 := by
  have hb := (rfl : (happenAll {} halfFull).builderAt? ⟨0⟩ = some _)
  obtain ⟨-, hfailed, hblamed, -, -, -⟩ := append_display halfFull hb stubborn
  obtain ⟨hrestored, -⟩ := hfailed rfl
  exact ⟨_, hb, (hblamed ⟨3, 1⟩).mpr ⟨rfl, .inl ⟨rfl, rfl⟩⟩, hrestored.units, hrestored.overflows⟩

/-- A builder to which a piece was written on its own, without room for it. -/
def overfull : List Event :=
  [.step (.newBuilder "b" ⟨4, .error⟩), .step (.edit "b" (.sink "abcdef"))]

/-- Every piece of the value fits, and the overflow of the write before it is reported. -/
theorem earlier_overflow_reported :
    ∃ b, (happenAll {} overfull).builderAt? ⟨0⟩ = some b ∧
      ((Display.ofPieces false ["x"]).outcome b.remaining).ok = false ∧
      ((Display.ofPieces false ["x"]).outcome b.remaining).refused = [] ∧
      (b.appendDisplay (.ofPieces false ["x"])).1 = .error ⟨6, 4⟩ :=
  ⟨_, rfl, rfl, rfl, rfl⟩

end Workspace
end ValueText
