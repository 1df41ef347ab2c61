/-
  ValueText.Proofs.Buffer.Refinement — a builder is a bounded list of code units.

  The reference is a list with a bound.  It takes what it is offered as a whole if
  there is room, and counts what it refuses.  A builder of a session behaves like
  the reference: each kind of append offers certain units, and a run of appends is
  the run of their offers.

  Main results:

    • `edits_contribution`  every append of one text is the append of its units;
    • `list_after`          one append is one offer (the step), `list_run` the run;
    • `append_refines`      what the appends of a session do to their builder, its
                            memory and its counters.
-/
import ValueText.Proofs.Buffer.Appending

namespace ValueText

/-! ## §1. The reference. -/

/-- A list of units that has a bound, and the number of lists it had no room for. -/
structure BoundedList where
  units : List CodeUnit
  bound : Nat
  refused : UInt64

/-- Offers a list of units: it is added as a whole if there is room for it. -/
def BoundedList.offer (l : BoundedList) (us : List CodeUnit) : BoundedList :=
  if us.length ≤ l.bound - l.units.length then { l with units := l.units ++ us }
  else { l with refused := l.refused + 1 }

/-- A builder as a bounded list. -/
def Builder.list (b : Builder) : BoundedList := ⟨b.units, b.capacity, b.overflows⟩

namespace Builder

variable {b b' : Builder} {us : List CodeUnit}

theorem Lands.list (h : b.Bounded) (hl : b.Lands us b') (hfit : us.length ≤ b.remaining) :
    b'.list = b.list.offer us := by
  have hroom : us.length ≤ b.list.bound - b.list.units.length := by
    rw [Builder.list, h.units_length]
    exact hfit
  rw [BoundedList.offer, if_pos hroom, Builder.list, hl.units, hl.capacity, hl.overflows]
  rfl

theorem list_of_lt (h : b.Bounded) (hfull : b.remaining < us.length)
    (hunits : b'.units = b.units) (hcapacity : b'.capacity = b.capacity)
    (hoverflows : b'.overflows = b.overflows + 1) : b'.list = b.list.offer us := by
  have hroom : ¬ us.length ≤ b.list.bound - b.list.units.length := by
    rw [Builder.list, h.units_length]
    exact Nat.not_le_of_lt hfull
  rw [BoundedList.offer, if_neg hroom, Builder.list, hunits, hcapacity, hoverflows]
  rfl

end Builder

/-! ## §2. Appends of a session. -/

namespace Workspace

variable {w : Workspace} {name : String} {b : Builder}

/-- The units that an edit offers to the content, if it is an append of one text.  The
integers are those of the width; a snapshot offers what it reads as. -/
def contribution? (w : Workspace) : Edit → Option (List CodeUnit)
  | .unit u => some [u]
  | .units us => some us
  | .char c => some (CodeUnit.encodeChar c)
  | .repeated u n => some (List.replicate n u)
  | .text s => some (CodeUnit.encode s)
  | .bool v => some (CodeUnit.encode (Literal.ofBool v))
  | .int width n => if width.Holds n then some (Numeral.units n) else none
  | .builder other => (w.builder? other).map (·.units)
  | .snapshot s => w.reading? s
  | _ => none

/-- An edit of the named builder is answered by `r` and makes `b'` of the builder; every
other builder stays as it is. -/
def Edits (w : Workspace) (name : String) (e : Edit) (r : Reply) (b' : Builder) : Prop :=
  ∃ w', w.step (.edit name e) = .ok (r, w') ∧ w'.builder? name = some b' ∧
    ∀ id, w.builderNames.get? name ≠ some id → w'.builderAt? id = w.builderAt? id

theorem builder_of_builder? (h : w.builder? name = some b) :
    ∃ id t, w.builder name = .ok (id, t) ∧ w.builderNames.get? name = some id ∧ t.builder = b := by
  rw [builder?, Option.bind_eq_some_iff] at h
  obtain ⟨id, hid, h⟩ := h
  obtain ⟨t, hbuilder, hb⟩ := builder_of_named hid h
  exact ⟨id, t, hbuilder, hid, hb⟩

/-- An edit that sets the builder, and at most a snapshot besides. -/
theorem edits_of_edit {id : BuilderId} {t : Tenant} {e : Edit} {r : Reply} {b' : Builder}
    (w₁ : Workspace) (h : w.builder name = .ok (id, t)) (hid : w.builderNames.get? name = some id)
    (ht : w₁.tenants = w.tenants) (hn : w₁.builderNames = w.builderNames)
    (he : w.edit id t e = .ok (r, w₁.setBuilder id b')) : w.Edits name e r b' := by
  have hsee (id' : BuilderId) : w₁.builderAt? id' = w.builderAt? id' := by
    rw [builderAt?, builderAt?, ht]
  refine ⟨w₁.setBuilder id b', (step_edit h e).trans he, ?_, ?_⟩
  · show ((w₁.builderNames.get? name).bind _) = _
    rw [hn, hid, Option.bind_some, builderAt?_setBuilder, if_pos rfl, hsee,
      builderAt?_of_tenant (builder_eq_ok h).2]
    rfl
  · intro id' hne
    rw [builderAt?_setBuilder, if_neg (fun hc => hne (by rw [hid, hc])), hsee]

/-- **Every append of one text is the append of its units.** -/
theorem edits_contribution {e : Edit} {us : List CodeUnit} (hw : w.Bounded)
    (hb : w.builder? name = some b) (he : w.contribution? e = some us) :
    w.Edits name e (.ofAppend (b.appendUnits us).1) (b.appendUnits us).2 := by
  obtain ⟨id, t, hbuilder, hid, rfl⟩ := builder_of_builder? hb
  have hset : w.edit id t e = .ok (.ofAppend (t.builder.appendUnits us).1,
      w.setBuilder id (t.builder.appendUnits us).2) →
      w.Edits name e (.ofAppend (t.builder.appendUnits us).1) (t.builder.appendUnits us).2 :=
    edits_of_edit w hbuilder hid rfl rfl
  cases e with
  | unit u => cases he; exact hset rfl
  | units us => cases he; exact hset rfl
  | char c => cases he; exact hset rfl
  | text s => cases he; exact hset rfl
  | bool v => cases he; exact hset rfl
  | repeated u n =>
      cases he
      rw [← Builder.appendRepeated_eq_appendUnits] at hset ⊢
      exact hset rfl
  | int width n =>
      simp only [contribution?] at he
      split at he
      · next hholds =>
          cases he
          rw [← Builder.appendInt_eq_appendNumeral _ hholds] at hset ⊢
          exact hset rfl
      · cases he
  | builder other =>
      simp only [contribution?, Option.map_eq_some_iff] at he
      obtain ⟨o, ho, rfl⟩ := he
      obtain ⟨id', t', hother, hid', rfl⟩ := builder_of_builder? ho
      have hbounded := hw _ _ (builderAt?_of_tenant (builder_eq_ok hother).2)
      rw [← Builder.appendBuilder_eq_appendUnits _ hbounded] at hset ⊢
      refine hset ?_
      show w.builder other >>= _ = _
      rw [hother]
      rfl
  | snapshot s =>
      simp only [contribution?, reading?, snapshot?] at he
      cases hs : w.snapshot s with
      | error f => rw [hs] at he; cases he
      | ok v =>
          rw [hs] at he
          simp only [Except.toOption, Option.map_some, Option.bind_some,
            Option.map_eq_some_iff] at he
          obtain ⟨⟨seg, s'⟩, hread, rfl⟩ := he
          -- Reading the snapshot may keep what was read, and touches no builder.
          refine edits_of_edit (w.setSnapshot v.1 s') hbuilder hid rfl rfl ?_
          simp only [edit, hs, hread, bind, Except.bind]
  | _ => cases he

theorem ofAppend_refusal (b : Builder) (n : Nat) :
    Reply.ofAppend (b.refusal n) = match b.policy with
      | .report => .flag false
      | .error => .overflow ⟨n, b.remaining⟩ := by
  unfold Builder.refusal
  cases b.policy <;> rfl

theorem edits_pieces (hb : w.builder? name = some b) (ps : List String) (complete : Bool) :
    w.Edits name (.pieces ps complete) (.ofAppend (b.appendPieces ps complete).1)
      (b.appendPieces ps complete).2 := by
  obtain ⟨id, t, hbuilder, hid, rfl⟩ := builder_of_builder? hb
  exact edits_of_edit w hbuilder hid rfl rfl rfl

theorem edits_terminate (hb : w.builder? name = some b) :
    w.Edits name .terminate (.ofAppend b.terminate.1) b.terminate.2 := by
  obtain ⟨id, t, hbuilder, hid, rfl⟩ := builder_of_builder? hb
  exact edits_of_edit w hbuilder hid rfl rfl rfl

theorem Edits.unique {e : Edit} {r r' : Reply} {b₁ b₂ : Builder} (h₁ : w.Edits name e r b₁)
    (h₂ : w.Edits name e r' b₂) : r = r' ∧ b₁ = b₂ := by
  obtain ⟨w₁, hs₁, hb₁, -⟩ := h₁
  obtain ⟨w₂, hs₂, hb₂, -⟩ := h₂
  rw [hs₁] at hs₂
  cases hs₂
  rw [hb₁] at hb₂
  cases hb₂
  exact ⟨rfl, rfl⟩

theorem Edits.after {e : Edit} {r : Reply} {b' : Builder} (h : w.Edits name e r b') :
    (w.after (.edit name e)).builder? name = some b' := by
  obtain ⟨w', hs, hb', -⟩ := h
  rw [after_of_step hs]
  exact hb'

/-- A stale snapshot is refused, and nothing changes. -/
theorem step_stale {s : String} {sid : SnapshotId} {snapshot : Snapshot}
    (hb : w.builder? name = some b) (hs : w.snapshot s = .ok (sid, snapshot))
    (hstale : snapshot.isCurrent w.see = false) :
    w.step (.edit name (.snapshot s)) = .ok (.stale, w) := by
  obtain ⟨id, t, hbuilder, -, -⟩ := builder_of_builder? hb
  rw [step_edit hbuilder]
  have hread : snapshot.readSegment? w.see = none := by
    rw [Snapshot.readSegment?, if_neg (by rw [hstale]; decide)]
  simp only [edit, hs, hread, bind, Except.bind]

/-- Whether the edit appends something, in a form that can be appended. -/
def Edit.IsAppend : Edit → Prop
  | .unit _ | .units _ | .char _ | .repeated _ _ | .text _ | .bool _ => True
  | .builder _ | .snapshot _ => True
  | .int width n => width.Holds n
  | .pieces _ complete => complete = true
  | _ => False

/-- The units that an append offers, pieces taken together.  There are none if the builder
or the snapshot to be appended does not exist or cannot be read. -/
def offer? (w : Workspace) : Edit → Option (List CodeUnit)
  | .pieces ps _ => some (Builder.unitsOfPieces ps)
  | e => w.contribution? e

/-- What a run of appends to the named builder offers, one list for each append. -/
def offers (name : String) (w : Workspace) : List Edit → List (List CodeUnit)
  | [] => []
  | e :: rest => (w.offer? e).toList ++ offers name (w.after (.edit name e)) rest

theorem Bounded.builder? (h : w.Bounded) (hb : w.builder? name = some b) : b.Bounded := by
  obtain ⟨id, t, hbuilder, -, rfl⟩ := builder_of_builder? hb
  exact h id _ (builderAt?_of_tenant (builder_eq_ok hbuilder).2)

/-- An append that has nothing to offer leaves the workspace alone. -/
theorem after_of_offer?_eq_none {e : Edit} (hb : w.builder? name = some b) (he : e.IsAppend)
    (ho : w.offer? e = none) : w.after (.edit name e) = w := by
  obtain ⟨id, t, hbuilder, -, -⟩ := builder_of_builder? hb
  have hstep := step_edit hbuilder e
  have hrefused {f : Fault} (hf : w.edit id t e = .error f) : w.after (.edit name e) = w := by
    rw [after, hstep, hf]
  cases e with
  | builder other =>
      cases hother : w.builder other with
      | ok v =>
          simp only [offer?, contribution?, builder?_of_builder hother] at ho
          cases ho
      | error f =>
          refine hrefused (f := f) ?_
          show w.builder other >>= _ = _
          rw [hother]
          rfl
  | snapshot s =>
      cases hs : w.snapshot s with
      | error f =>
          refine hrefused (f := f) ?_
          show w.snapshot s >>= _ = _
          rw [hs]
          rfl
      | ok v =>
          simp only [offer?, contribution?, reading?_of_snapshot hs, Option.map_eq_none_iff] at ho
          have hcurrent : v.2.isCurrent w.see = false := by
            cases hc : v.2.isCurrent w.see with
            | false => rfl
            | true =>
                rw [Snapshot.readSegment?, if_pos hc] at ho
                split at ho <;> cases ho
          exact after_of_step (step_stale hb hs hcurrent)
  | int width n =>
      simp only [offer?, contribution?, if_pos (show width.Holds n from he)] at ho
      cases ho
  | unit | units | char | repeated | text | bool | pieces => cases ho
  | _ => cases he

/-- **One append is one offer.** -/
theorem list_after {e : Edit} (hw : w.Bounded) (hb : w.builder? name = some b) (he : e.IsAppend) :
    ∃ b', (w.after (.edit name e)).builder? name = some b' ∧
      b'.list = (w.offer? e).toList.foldl BoundedList.offer b.list ∧ b'.version = b.version := by
  have hbounded := hw.builder? hb
  cases ho : w.offer? e with
  | none =>
      rw [after_of_offer?_eq_none hb he ho]
      exact ⟨b, hb, rfl, rfl⟩
  | some us =>
      simp only [Option.toList_some, List.foldl_cons, List.foldl_nil]
      by_cases hp : ∃ ps complete, e = .pieces ps complete
      · obtain ⟨ps, complete, rfl⟩ := hp
        cases he
        cases ho
        refine ⟨_, (edits_pieces hb ps true).after, ?_⟩
        rcases Nat.lt_or_ge b.remaining (Builder.unitsOfPieces ps).length with hfull | hfit
        · obtain ⟨-, hr⟩ := Builder.restored_appendPieces true hbounded hfull
          exact ⟨Builder.list_of_lt hbounded hfull hr.units hr.capacity hr.overflows, hr.version⟩
        · obtain ⟨-, hl⟩ := Builder.lands_appendPieces hbounded hfit
          exact ⟨hl.list hbounded hfit, hl.version⟩
      · have hc : w.contribution? e = some us := by
          cases e with
          | pieces ps complete => exact absurd ⟨ps, complete, rfl⟩ hp
          | _ => exact ho
        refine ⟨_, (edits_contribution hw hb hc).after, ?_⟩
        rcases Nat.lt_or_ge b.remaining us.length with hfull | hfit
        · rw [Builder.appendUnits_of_lt hfull]
          exact ⟨Builder.list_of_lt hbounded hfull rfl rfl rfl, rfl⟩
        · obtain ⟨-, hl⟩ := Builder.lands_appendUnits hbounded hfit
          exact ⟨hl.list hbounded hfit, hl.version⟩

/-- **A run of appends is a run of offers.** -/
theorem list_run (es : List Edit) : ∀ {w : Workspace} {b : Builder}, w.Bounded →
    w.builder? name = some b → (∀ e ∈ es, e.IsAppend) →
    ∃ b', (w.run (es.map (.edit name))).builder? name = some b' ∧
      b'.list = (offers name w es).foldl BoundedList.offer b.list ∧ b'.version = b.version := by
  induction es with
  | nil => intro w b _ hb _; exact ⟨b, hb, rfl, rfl⟩
  | cons e rest ih =>
      intro w b hw hb he
      obtain ⟨b₁, hb₁, hlist, hversion⟩ := list_after hw hb (he e (.head _))
      obtain ⟨b', hb', hlist', hversion'⟩ :=
        ih (hw.after (.edit name e)) hb₁ fun e' he' => he e' (.tail _ he')
      refine ⟨b', hb', ?_, hversion'.trans hversion⟩
      rw [offers, List.foldl_append, ← hlist, hlist']

/-- **A builder is a bounded list of code units.**  At every moment of a session, and for
every builder that has a name then:

1. An append whose `us` fit is answered `true`.  They stand behind the content, and nothing
   else of the builder or its memory changes.
2. An append whose units do not fit is answered as the policy says, with the length and the
   room there was.  One more overflow is counted and nothing else changes.
3. A text in pieces is written as a whole, or the content stays as it was.
4. A stale snapshot is not appended and nothing changes.
5. Null termination that succeeds leaves the content, or all of it but the last unit, with
   a zero behind it if there is any capacity.
6. So a run of appends makes of the builder what their offers make of a bounded list. -/
theorem append_refines (steps : List Step) {name : String} {b : Builder}
    (hb : (run {} steps).builder? name = some b) :
    (∀ e us, (run {} steps).contribution? e = some us → us.length ≤ b.remaining →
      ∃ b', (run {} steps).Edits name e (.flag true) b' ∧ b.Lands us b') ∧
    (∀ e us, (run {} steps).contribution? e = some us → b.remaining < us.length →
      (run {} steps).Edits name e
        (match b.policy with
          | .report => .flag false
          | .error => .overflow ⟨us.length, b.remaining⟩)
        { b with overflows := b.overflows + 1 }) ∧
    (∀ ps complete, ∃ r b', (run {} steps).Edits name (.pieces ps complete) r b' ∧
      (complete = true ∧ (Builder.unitsOfPieces ps).length ≤ b.remaining →
        r = .flag true ∧ b.Lands (Builder.unitsOfPieces ps) b') ∧
      (¬ (complete = true ∧ (Builder.unitsOfPieces ps).length ≤ b.remaining) →
        (r = .flag false ∨ ∃ o, r = .overflow o) ∧
        b.Restored (if (Builder.unitsOfPieces ps).length ≤ b.remaining then 0 else 1) b')) ∧
    (∀ s sid snapshot, (run {} steps).snapshot s = .ok (sid, snapshot) →
      snapshot.isCurrent (run {} steps).see = false →
      (run {} steps).step (.edit name (.snapshot s)) = .ok (.stale, run {} steps)) ∧
    (∀ v b', (run {} steps).Edits name .terminate (.flag v) b' →
      b'.units = (if v then b.units else b.units.dropLast) ∧
      (0 < b.capacity → b'.get? b'.length = some 0)) ∧
    (∀ es : List Edit, (∀ e ∈ es, e.IsAppend) →
      ∃ b', (run {} (steps ++ es.map (.edit name))).builder? name = some b' ∧
        b'.list = (offers name (run {} steps) es).foldl BoundedList.offer b.list ∧
        b'.version = b.version) := by
  have hw := bounded_run steps
  have hbounded := hw.builder? hb
  refine ⟨?fits, ?full, ?pieces, ?stale, ?terminate, ?run⟩
  case fits =>
    intro e us he hfit
    obtain ⟨hok, hlands⟩ := Builder.lands_appendUnits hbounded hfit
    have hedits := edits_contribution hw hb he
    rw [hok] at hedits
    exact ⟨_, hedits, hlands⟩
  case full =>
    intro e us he hfull
    have hedits := edits_contribution hw hb he
    rw [Builder.appendUnits_of_lt hfull, ofAppend_refusal] at hedits
    exact hedits
  case pieces =>
    intro ps complete
    refine ⟨_, _, edits_pieces hb ps complete, ?_, ?_⟩
    · rintro ⟨rfl, hfit⟩
      obtain ⟨hok, hlands⟩ := Builder.lands_appendPieces hbounded hfit
      rw [hok]
      exact ⟨rfl, hlands⟩
    · intro hnot
      rcases Nat.lt_or_ge b.remaining (Builder.unitsOfPieces ps).length with hfull | hfit
      · obtain ⟨hanswer, hr⟩ := Builder.restored_appendPieces complete hbounded hfull
        rw [if_neg (by omega)]
        refine ⟨?_, hr⟩
        cases hp : b.policy with
        | report => rw [hp] at hanswer; rw [hanswer]; exact .inl rfl
        | error =>
            rw [hp] at hanswer
            obtain ⟨o, ho, -⟩ := hanswer
            rw [ho]
            exact .inr ⟨o, rfl⟩
      · -- The text fits, so it is its end that could not be written.
        have hincomplete : complete = false := by
          cases complete with
          | true => exact absurd ⟨rfl, hfit⟩ hnot
          | false => rfl
        subst hincomplete
        obtain ⟨hanswer, hr⟩ := Builder.restored_appendPieces_incomplete hbounded hfit
        rw [if_pos hfit, hanswer]
        refine ⟨?_, hr⟩
        cases b.pending with
        | none => exact .inl rfl
        | some o => exact .inr ⟨o, rfl⟩
  case stale =>
    intro s sid snapshot hs hstale
    exact step_stale hb hs hstale
  case terminate =>
    intro v b' hedits
    obtain ⟨hr, rfl⟩ := hedits.unique (edits_terminate hb)
    refine Builder.terminate_ok hbounded ?_
    cases ho : b.terminate.1 with
    | ok v' => rw [ho] at hr; cases hr; rfl
    | error o => rw [ho] at hr; cases hr
  case run =>
    intro es he
    rw [run_append]
    exact list_run es hw hb he

/-- A session that fills half of a builder. -/
def halfFilled : List Step := [.newBuilder "b" ⟨4, .error⟩, .edit "b" (.text "ab")]

theorem append_refines_halfFilled :
    ∃ b, (run {} halfFilled).builder? "b" = some b ∧
      (∃ b', (run {} halfFilled).Edits "b" (.int .i8 (-7)) (.flag true) b' ∧
        b.Lands [0x2D, 0x37] b') ∧
      (run {} halfFilled).Edits "b" (.text "cde") (.overflow ⟨3, 2⟩)
        { b with overflows := b.overflows + 1 } ∧
      ∃ b', (run {} (halfFilled ++
          [.edit "b" (.text "cde"), .edit "b" (.repeated 0x7A 2)])).builder? "b" = some b' ∧
        b'.list = ⟨CodeUnit.encode "abzz", 4, 1⟩ := by
  have hb : (run {} halfFilled).builder? "b" = some _ := rfl
  obtain ⟨hfits, hfull, -, -, -, hrun⟩ := append_refines halfFilled hb
  have hseven : (run {} halfFilled).contribution? (.int .i8 (-7)) = some [0x2D, 0x37] := by
    rw [contribution?, if_pos (by decide), Numeral.units, Numeral.digits_small (by decide)]
    rfl
  refine ⟨_, rfl, hfits _ _ hseven (by decide), hfull (.text "cde") _ rfl (by decide), ?_⟩
  obtain ⟨b', hb', hlist, -⟩ := hrun [.text "cde", .repeated 0x7A 2] (by simp [Edit.IsAppend])
  exact ⟨b', hb', hlist⟩

end Workspace
end ValueText
