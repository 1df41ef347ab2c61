/-
  ValueText.Proofs.Buffer.PanicFree — sessions in which no check fails.

  A session is run with all the checks of its operations.  They are met in every
  state that steps lead to, because the states are well formed: what a builder
  contains lies in its capacity, its capacity lies in its memory, its snapshots see
  the length and the version that it has, and a disposed builder has neither
  content nor capacity, whether or not its memory was released.

  A read of a stale snapshot is refused, and nothing stops.  Its display can only fail,
  so the text of a stale snapshot that is made by its display is the one read that stops.

  Main results:

    • `WellFormed`           what is true of the builders and the snapshots of a session;
    • `housed_run`           as long as memory is there, every builder of a session is
                             housed, as the checked operations want it;
    • `stepChecked_eq`       a step in such a state meets no check that fails, unless it
                             names a place outside the memory itself or displays a stale
                             snapshot;
    • `stepChecked_of_displaysStale`  and such a display stops;
    • `session_panic_free`   all of this, for every session.
-/
import ValueText.Proofs.Buffer.Checked

namespace ValueText

namespace Workspace

/-! ## §1. Steps with checks. -/

/-- Goes on with what was found under a name, if it was. -/
def onFound {α β : Type} (x : Except Fault α) (f : α → Except Panic (Except Fault β)) :
    Except Panic (Except Fault β) :=
  match x with
  | .ok a => f a
  | .error e => .ok (.error e)

variable (w : Workspace)

/-- An edit of a builder. -/
def editChecked (id : BuilderId) (t : Tenant) (e : Edit) :
    Except Panic (Except Fault (Reply × Workspace)) :=
  let b := t.builder
  let appended (r : Except Panic Appended) : Except Panic (Except Fault (Reply × Workspace)) := do
    let r ← r
    return .ok (.ofAppend r.1, w.setBuilder id r.2)
  match e with
  | .unit u => appended (b.appendUnitChecked u)
  | .units us => appended (b.appendUnitsChecked us)
  | .char c => appended (b.appendCharChecked c)
  | .repeated u n => appended (b.appendRepeatedChecked u n)
  | .text s => appended (b.appendTextChecked s)
  | .bool v => appended (b.appendBoolChecked v)
  | .int width n => appended (b.appendIntChecked width n)
  | .pieces ps complete => appended (b.appendPiecesChecked ps complete)
  | .sink s => do
      let (ok, b) ← b.sinkChecked s
      return .ok (.flag ok, w.setBuilder id b)
  | .builder other =>
      onFound (w.builder other) fun (_, o) => appended (b.appendBuilderChecked o.builder)
  | .snapshot name =>
      onFound (w.snapshot name) fun (sid, s) => do
        match ← s.readSegmentChecked w.see with
        | none => return .ok (.stale, w)
        | some (seg, s) =>
            let us ← seg.unitsChecked
            let r ← b.appendUnitsChecked us
            return .ok (.ofAppend r.1, (w.setSnapshot sid s).setBuilder id r.2)
  | .terminate => appended b.terminateChecked
  | .get i => do
      let u ← Check.inside (b.get? i)
      return .ok (.unit u, w)
  | .set i u => do
      let b ← Check.inside (b.set? i u)
      return .ok (.done, w.setBuilder id b)
  -- These only compare and assign.
  | .clear | .dispose | .truncate _ => .ok (w.edit id t e)

/-- What a look leaves that shows something and keeps it. -/
def shown {α : Type} (id : SnapshotId) (reply : α → Reply) :
    Option (α × Snapshot) → Reply × Workspace
  | some (v, s) => (reply v, w.setSnapshot id s)
  | none => (.stale, w)

/-- A look at a snapshot. -/
def lookChecked (id : SnapshotId) (s : Snapshot) (l : Look) : Except Panic (Reply × Workspace) :=
  match l with
  | .text => w.shown id .text <$> s.readTextChecked w.see
  | .display => do
      let read ← s.readTextChecked w.see
      let text ← Check.displayed read
      return w.shown id .text (some text)
  | .array => w.shown id .units <$> s.readArrayChecked w.see
  | .segment => w.shown id .segment <$> s.readSegmentChecked w.see
  | .freeze =>
      (fun s => w.shown id (fun _ : Unit => .flag true) (s.map fun s => ((), s))) <$>
        s.freezeChecked w.see
  -- This only compares and assigns.
  | .recycle => .ok (w.look id s .recycle)

/-- Appends to a builder of a pool, which is kept or given back. -/
def rentChecked (p t : String) (keep : Option String) (pool : Pool BuilderId) :
    Except Panic (Except Fault (Reply × Workspace)) := do
  Check.room pool.asks
  let (id, w) := w.takeFrom p pool
  onFound (w.pool p) fun pool =>
    match w.builderAt? id with
    | none => .ok (.error (.unknownName p))
    | some b => do
        let (r, b) ← b.appendTextChecked t
        let w := w.setBuilder id b
        let w := match keep with
          | some name => w.nameBuilder name id
          | none => w.giveBackTo p pool id
        return .ok (.rented (.ofAppend r) b pool.size, w)

/-- Runs one step.  A step that names something unknown is refused; one that would go wrong in
another way stops. -/
def stepChecked (s : Step) : Except Panic (Except Fault (Reply × Workspace)) :=
  match s with
  -- New memory is an array.
  | .newBuilder _ o => do
      Check.room o.capacity
      return w.step s
  | .edit b e => onFound (w.builder b) fun (id, t) => w.editChecked id t e
  | .ofSegment _ us start length => do
      Check.that (start + length ≤ us.length)
      return w.step s
  | .look s l => onFound (w.snapshot s) fun (id, snapshot) => .ok <$> w.lookChecked id snapshot l
  -- A queue must have a place; a pool that keeps no builder has no queue.
  | .newPool _ o => do
      if 0 < o.limit then Check.that (o.limit ≠ 0)
      return w.step s
  | .take p _ =>
      onFound (w.pool p) fun pool => do
        Check.room pool.asks
        return w.step s
  | .rent p t keep => onFound (w.pool p) (w.rentChecked p t keep)
  | .allocate _ capacity => do
      Check.room capacity
      return w.step s
  | .access _ _ =>
      match w.step s with
      | .error .outOfRange => .error .range
      | r => .ok r
  -- These hand references around, count them and compare.
  | .borrow .. | .dropBuilder _ | .snap .. | .ofUnits .. | .ofText .. | .clone .. | .dropSnapshot _
  | .giveBack .. | .adopt .. => .ok (w.step s)

/-- An edit that names an index outside the memory of the builder. -/
def Edit.Outside (b : Builder) : Edit → Prop
  | .get i | .set i _ => b.region.capacity ≤ i
  | _ => False

/-- A step that names a place outside the memory that it is about. -/
def Step.Outside (w : Workspace) : Step → Prop
  | .edit b e => ∃ v, w.builder b = .ok v ∧ e.Outside v.2.builder
  | .ofSegment _ us start length => us.length < start + length
  | .access g a => w.step (.access g a) = .error .outOfRange
  | _ => False

/-- A step that makes a text by the display of a snapshot that is stale. -/
def Step.DisplaysStale (w : Workspace) : Step → Prop
  | .look s .display => ∃ v, w.snapshot s = .ok v ∧ v.2.isCurrent w.see = false
  | _ => False

/-- A step whose integer has the width that it is written with. -/
def Step.WellTyped : Step → Prop
  | .edit _ (.int width n) => width.Holds n
  | _ => True

end Workspace

/-! ## §2. Well-formed states. -/

/-- What is true of a builder between two operations. -/
structure Builder.WellFormed (b : Builder) : Prop where
  length : b.disposed = false → b.length ≤ b.capacity
  capacity : b.disposed = false → b.capacity ≤ b.region.capacity
  publishedLength : b.published.length = b.length
  publishedVersion : b.published.version = b.version
  disposed : b.disposed = true → b.length = 0 ∧ b.capacity = 0

namespace Workspace

/-- Builders are well formed, and a snapshot that could be read would read units of the region. -/
structure WellFormed (w : Workspace) : Prop where
  builders : ∀ id b, w.builderAt? id = some b → b.WellFormed
  snapshots : ∀ sid s, w.snapshotAt? sid = some s → ∀ id v n, s.origin = .bound id v n →
    (w.see id).version = v → (w.see id).length = n → n ≤ (w.see id).region.capacity

variable {w w' : Workspace}

/-- What a builder publishes as its length lies in what it publishes as its memory. -/
theorem length_see_le (hb : w.Bounded) (hc : w.Consistent)
    (hw : ∀ id b, w.builderAt? id = some b → b.Whole) (id : BuilderId) :
    (w.see id).length ≤ (w.see id).region.capacity := by
  cases h : w.builderAt? id with
  | none => rw [see, h]; exact Nat.zero_le _
  | some b =>
      rw [see_of_builderAt? h, (hc id b h).length]
      exact Nat.le_trans (hb id b h).length (hw id b h).capacity_le

/-- **The states of a session are well formed.** -/
theorem wellFormed_run (steps : List Step) : (run {} steps).WellFormed := by
  have hb := bounded_run steps
  have hc := consistent_run steps
  have hw := whole_run steps
  refine ⟨fun id b h => ?_, fun sid s _ id v n _ _ hn => ?_⟩
  · have hlength := (hb id b h).length
    refine ⟨fun _ => hlength, fun _ => (hw id b h).capacity_le, (hc id b h).length,
      (hc id b h).version, fun hd => ?_⟩
    have hcapacity := (hw id b h).disposed hd
    omega
  · rw [← hn]
    exact length_see_le hb hc hw id

/-! ## §3. Memory that is there. -/

/-- The memory of a builder has at most `n` units. -/
def Roomy (n : Nat) (w : Workspace) : Prop :=
  ∀ id b, w.builderAt? id = some b → b.region.capacity ≤ n

/-- Each of the steps asks for at most `n` units of memory, whenever its turn comes. -/
def Served (n : Nat) (w : Workspace) : List Step → Prop
  | [] => True
  | s :: rest => s.asks w ≤ n ∧ Served n (w.after s) rest

theorem capacity_dispose (b : Builder) (shared : Bool) :
    (b.dispose shared).region.capacity ≤ b.region.capacity := by
  unfold Builder.dispose
  split
  · exact Nat.le_refl _
  · cases shared with
    | true => exact Nat.le_refl _
    | false =>
        have hreleased : b.region.release.capacity = 0 := by
          unfold Region.release
          split <;> rfl
        show b.region.release.capacity ≤ _
        omega

theorem capacity_handled {b b' : Builder} (h : Builder.Handled b b') :
    b'.region.capacity ≤ b.region.capacity := by
  obtain ⟨b₁, h₁, b₂, h₂, hd⟩ := h
  have hb₁ : b₁.region.capacity = b.region.capacity := by
    rcases h₁ with rfl | ⟨s, rfl⟩
    · rfl
    · exact (Builder.Framed.appendUnits b _).memory
  have hb₂ : b₂.region.capacity = b₁.region.capacity := by rcases h₂ with rfl | rfl <;> rfl
  rw [← hb₁, ← hb₂]
  rcases hd with rfl | ⟨shared, rfl⟩
  · exact Nat.le_refl _
  · exact capacity_dispose b₂ shared

theorem capacity_edited (w : Workspace) (id : BuilderId) (b : Builder) (e : Edit) :
    (w.edited id b e).region.capacity ≤ b.region.capacity := by
  by_cases he : e = .dispose
  · subst he
    exact capacity_dispose b _
  · exact Nat.le_of_eq (framed_edited w id b he).memory

theorem Roomy.after {n : Nat} (h : w.Roomy n) {s : Step} (hs : s.asks w ≤ n) :
    (w.after s).Roomy n :=
  builders_after (fun _ _ hr => Nat.le_trans hr.room hs)
    (fun id b e hb => Nat.le_trans (capacity_edited w id b e) hb)
    (fun _ _ hh hb => Nat.le_trans (capacity_handled hh) hb) h

theorem Roomy.run {n : Nat} (steps : List Step) : ∀ {w : Workspace}, w.Roomy n →
    Served n w steps → (w.run steps).Roomy n := by
  induction steps with
  | nil => intro w h _; exact h
  | cons s rest ih => intro w h hs; exact ih (h.after hs.1) hs.2

/-- Every builder is housed. -/
def Housed (w : Workspace) : Prop := ∀ id b, w.builderAt? id = some b → b.Housed

/-- **Every builder of a session is housed**, as long as memory is there. -/
theorem housed_run {steps : List Step} (h : Served Check.maxUnits {} steps) :
    (run {} steps).Housed := by
  have hempty : Roomy Check.maxUnits {} := fun id b hb => by simp [builderAt?] at hb
  exact fun id b hb => ⟨bounded_run steps id b hb, (whole_run steps id b hb).capacity_le,
    hempty.run steps h id b hb⟩

theorem Housed.covered (h : w.Housed) (hc : w.Consistent) (s : Snapshot) : s.Covered w.see := by
  intro id v n _ _ hn
  cases hb : w.builderAt? id with
  | none =>
      have hsee : w.see id = ⟨.allocate 0, 0, 0⟩ := by rw [see, hb]
      rw [hsee] at hn ⊢
      exact ⟨Nat.le_of_eq hn.symm, Nat.zero_le _⟩
  | some b =>
      have hb' := h id b hb
      rw [see_of_builderAt? hb, (hc id b hb).length] at hn
      rw [see_of_builderAt? hb]
      exact ⟨hn ▸ Nat.le_trans hb'.length hb'.capacity, hb'.room⟩

/-! ## §4. No check fails. -/

theorem inside_get? {b : Builder} {i : Nat} (h : i < b.region.capacity) :
    ∃ u, b.get? i = some u := by
  have hlength : i < b.region.units.length := by rwa [Region.length_units]
  exact ⟨_, List.getElem?_eq_getElem hlength⟩

theorem editChecked_eq (h : w.Housed) (hc : w.Consistent) {id : BuilderId} {t : Tenant}
    (ht : t.builder.Housed) {name : String} {e : Edit} (he : (Step.edit name e).WellTyped)
    (hinside : ¬ e.Outside t.builder) : w.editChecked id t e = .ok (w.edit id t e) := by
  cases e with
  | unit u => simp only [editChecked, ht.appendUnitChecked_eq]; rfl
  | units us => simp only [editChecked, ht.appendUnitsChecked_eq]; rfl
  | char c => simp only [editChecked, ht.appendCharChecked_eq]; rfl
  | repeated u n => simp only [editChecked, ht.appendRepeatedChecked_eq]; rfl
  | text s => simp only [editChecked, ht.appendTextChecked_eq]; rfl
  | bool v => simp only [editChecked, Builder.appendBoolChecked, ht.appendUnitsChecked_eq]; rfl
  | int width n => simp only [editChecked, ht.appendIntChecked_eq he]; rfl
  | pieces ps complete => simp only [editChecked, ht.appendPiecesChecked_eq]; rfl
  | sink s => simp only [editChecked, ht.sinkChecked_eq]; rfl
  | builder other =>
      simp only [editChecked, edit]
      cases ho : w.builder other with
      | error f => rfl
      | ok v =>
          have hv : v.2.builder.Housed := h v.1 _ (builderAt?_of_tenant (builder_eq_ok ho).2)
          simp only [onFound, ht.appendBuilderChecked_eq hv]
          rfl
  | snapshot name =>
      simp only [editChecked, edit]
      cases hs : w.snapshot name with
      | error f => rfl
      | ok v =>
          obtain ⟨sid, s⟩ := v
          simp only [onFound, (h.covered hc s).readSegmentChecked_eq, Check.bind_ok]
          cases hread : s.readSegment? w.see with
          | none => simp only [bind, Except.bind, hread]; rfl
          | some o =>
              simp only [bind, Except.bind, hread, o.1.unitsChecked_eq, ht.appendUnitsChecked_eq]
              rfl
  | terminate => simp only [editChecked, ht.terminateChecked_eq]; rfl
  | get i =>
      obtain ⟨u, hu⟩ := inside_get? (Nat.lt_of_not_le hinside)
      simp only [editChecked, edit, hu]
      rfl
  | set i u =>
      have hset : t.builder.set? i u = some (t.builder.withRegion (t.builder.region.put i u)) := by
        rw [Builder.set?, Region.store?_eq (Nat.lt_of_not_le hinside)]
        rfl
      simp only [editChecked, edit, hset]
      rfl
  | clear => rfl
  | dispose => rfl
  | truncate n => rfl

theorem readText?_of_isCurrent {s : Snapshot} (h : s.isCurrent w.see = true) :
    ∃ o, s.readText? w.see = some o := by
  rw [Snapshot.readText?, if_pos h]
  cases s.text with
  | none => exact ⟨_, rfl⟩
  | some t => exact ⟨_, rfl⟩

theorem lookChecked_eq (h : w.Housed) (hc : w.Consistent) (id : SnapshotId) (s : Snapshot)
    {l : Look} (hl : l = .display → s.isCurrent w.see = true) :
    w.lookChecked id s l = .ok (w.look id s l) := by
  have hs := h.covered hc s
  cases l with
  | display =>
      obtain ⟨o, ho⟩ := readText?_of_isCurrent (hl rfl)
      simp only [lookChecked, look, hs.readTextChecked_eq, ho]
      rfl
  | text =>
      rw [lookChecked, hs.readTextChecked_eq, Check.map_ok]
      simp only [look]
      cases s.readText? w.see <;> rfl
  | array =>
      rw [lookChecked, hs.readArrayChecked_eq, Check.map_ok]
      simp only [look]
      cases s.readArray? w.see <;> rfl
  | segment =>
      rw [lookChecked, hs.readSegmentChecked_eq, Check.map_ok]
      simp only [look]
      cases s.readSegment? w.see <;> rfl
  | freeze =>
      rw [lookChecked, hs.freezeChecked_eq, Check.map_ok]
      simp only [look]
      cases s.freeze? w.see <;> rfl
  | recycle => rfl

/-- A builder that a pool hands out is housed, too, if there is memory for it. -/
theorem Housed.takeFrom (h : w.Housed) {p : String} {pool : Pool BuilderId}
    (hask : pool.asks ≤ Check.maxUnits) : (w.takeFrom p pool).2.Housed := by
  intro id b hb
  rcases joins_takeFrom w p pool id with he | ⟨-, r, policy, hr, he⟩
  · exact h id b (he ▸ hb)
  · rw [hb] at he
    cases he
    exact ⟨Builder.bounded_ofRegion r policy, Nat.le_refl _, Nat.le_trans hr.room hask⟩

theorem rentChecked_eq (h : w.Housed) {p t : String} {keep : Option String}
    {pool : Pool BuilderId} (hpool : w.pool p = .ok pool) (hask : pool.asks ≤ Check.maxUnits) :
    w.rentChecked p t keep pool = .ok (w.step (.rent p t keep)) := by
  have htaken := h.takeFrom (p := p) hask
  rw [rentChecked, Check.room_eq hask, Check.bind_ok, step, hpool]
  simp only [bind, Except.bind]
  cases (w.takeFrom p pool).2.pool p with
  | error f => rfl
  | ok pool₁ =>
      simp only [onFound]
      cases hb : (w.takeFrom p pool).2.builderAt? (w.takeFrom p pool).1 with
      | none => rfl
      | some b =>
          simp only [(htaken _ b hb).appendTextChecked_eq]
          rfl

/-- **A step meets no check that fails**, unless it names a place outside the memory that it is
about, or displays a stale snapshot. -/
theorem stepChecked_eq (h : w.Housed) (hc : w.Consistent) {s : Step} (hs : s.WellTyped)
    (hask : s.asks w ≤ Check.maxUnits) (hinside : ¬ s.Outside w)
    (hcurrent : ¬ s.DisplaysStale w) :
    w.stepChecked s = .ok (w.step s) := by
  cases s with
  | newBuilder b o => rw [stepChecked, Check.room_eq (n := o.capacity) hask]; rfl
  | edit b e =>
      rw [stepChecked, step]
      cases hb : w.builder b with
      | error f => rfl
      | ok v =>
          have hv : v.2.builder.Housed := h v.1 _ (builderAt?_of_tenant (builder_eq_ok hb).2)
          exact editChecked_eq h hc hv hs fun ho => hinside ⟨v, hb, ho⟩
  | ofSegment s us start length =>
      rw [stepChecked, Check.that_eq (Nat.le_of_not_lt hinside)]
      rfl
  | look s l =>
      rw [stepChecked, step]
      cases hfound : w.snapshot s with
      | error f => rfl
      | ok v =>
          have hl : l = .display → v.2.isCurrent w.see = true := by
            rintro rfl
            exact Bool.of_not_eq_false fun hv => hcurrent ⟨v, hfound, hv⟩
          show Except.ok <$> w.lookChecked v.1 v.2 l = _
          rw [lookChecked_eq h hc v.1 v.2 hl]
          rfl
  | newPool p o =>
      rw [stepChecked]
      by_cases hlimit : 0 < o.limit
      · rw [if_pos hlimit, Check.that_eq (Nat.pos_iff_ne_zero.mp hlimit)]
        rfl
      · rw [if_neg hlimit]
        rfl
  | take p b =>
      rw [stepChecked]
      cases hpool : w.pool p with
      | error f => rw [step, hpool]; rfl
      | ok pool =>
          rw [Step.asks, asks_of_pool hpool] at hask
          show (Check.room pool.asks >>= _) = _
          rw [Check.room_eq hask]
          rfl
  | rent p t keep =>
      rw [stepChecked]
      cases hpool : w.pool p with
      | error f => rw [step, hpool]; rfl
      | ok pool =>
          rw [Step.asks, asks_of_pool hpool] at hask
          exact rentChecked_eq h hpool hask
  | allocate g capacity => rw [stepChecked, Check.room_eq (n := capacity) hask]; rfl
  | access g a =>
      rw [stepChecked]
      split
      · next hout => exact absurd hout hinside
      · rfl
  | _ => rfl

/-- A step that names a place outside the memory that it is about stops. -/
theorem stepChecked_of_outside {s : Step} (h : s.Outside w) : ∃ p, w.stepChecked s = .error p := by
  cases s with
  | edit b e =>
      obtain ⟨v, hv, ho⟩ := h
      rw [stepChecked, hv]
      cases e with
      | get i =>
          have hget : v.2.builder.get? i = none :=
            List.getElem?_eq_none (by rw [Region.length_units]; exact ho)
          refine ⟨.range, ?_⟩
          simp only [onFound, editChecked, hget]
          rfl
      | set i u =>
          have hset : v.2.builder.set? i u = none := by
            rw [Builder.set?, Region.store?, if_neg (Nat.not_lt.mpr ho)]
            rfl
          refine ⟨.range, ?_⟩
          simp only [onFound, editChecked, hset]
          rfl
      | _ => exact ho.elim
  | ofSegment s us start length =>
      refine ⟨.assertion, ?_⟩
      rw [stepChecked, Check.that, if_neg (Nat.not_le.mpr h)]
      rfl
  | access g a =>
      have hout : w.step (.access g a) = .error .outOfRange := h
      exact ⟨.range, by rw [stepChecked, hout]⟩
  | _ => exact h.elim

/-- **The display of a stale snapshot stops**: it fails, and the text that is made by it does not
refuse anything. -/
theorem stepChecked_of_displaysStale {s : Step} (h : s.DisplaysStale w) :
    w.stepChecked s = .error .display := by
  cases s with
  | look name l =>
      cases l with
      | display =>
          obtain ⟨v, hv, hstale⟩ := h
          have hread : v.2.readTextChecked w.see = .ok none := by
            rw [Snapshot.readTextChecked, hstale]
            rfl
          simp only [stepChecked, hv, onFound, lookChecked, hread]
          rfl
      | _ => exact h.elim
  | _ => exact h.elim

/-! ## §5. Sessions. -/

/-- **No operation on builders, snapshots and pools stops the program**, except for one that names
a place outside the memory itself, and for the display of a stale snapshot.  The states of a
session are well formed; as long as memory is there, the builders of a session can be measured
and read, and a step with all its checks does what the step without them does. -/
theorem session_panic_free (steps : List Step) :
    (run {} steps).WellFormed ∧
    (Served Check.maxUnits {} steps →
      (∀ id b, (run {} steps).builderAt? id = some b →
        b.remainingChecked = .ok b.remaining ∧ b.unitsChecked = .ok b.units ∧
          b.textChecked = .ok b.text) ∧
      ∀ s : Step, s.WellTyped → s.asks (run {} steps) ≤ Check.maxUnits →
        (¬ s.Outside (run {} steps) → ¬ s.DisplaysStale (run {} steps) →
          (run {} steps).stepChecked s = .ok ((run {} steps).step s)) ∧
        (s.Outside (run {} steps) → ∃ p, (run {} steps).stepChecked s = .error p) ∧
        (s.DisplaysStale (run {} steps) →
          (run {} steps).stepChecked s = .error .display)) := by
  refine ⟨wellFormed_run steps, fun hserved => ?_⟩
  have h := housed_run hserved
  refine ⟨fun id b hb => ?_, fun s hs hask => ?_⟩
  · have hb' := h id b hb
    exact ⟨hb'.remainingChecked_eq, hb'.unitsChecked_eq, hb'.textChecked_eq⟩
  · exact ⟨stepChecked_eq h (consistent_run steps) hs hask, stepChecked_of_outside,
      stepChecked_of_displaysStale⟩

/-- A builder is disposed while a snapshot of it is held. -/
def bereft : List Step :=
  [.newBuilder "b" ⟨2, .report⟩, .edit "b" (.text "ab"), .snap "b" "s", .edit "b" .dispose]

theorem session_panic_free_bereft :
    (∃ w, (run {} bereft).stepChecked (.edit "b" (.repeated 0x61 (2 ^ 64 - 1))) =
      .ok (.ok (.flag false, w))) ∧
    (∃ w, (run {} bereft).stepChecked (.look "s" .text) = .ok (.ok (.stale, w))) ∧
    ∃ p, (run {} bereft).stepChecked (.edit "b" (.get 2)) = .error p := by
  have hserved : Served Check.maxUnits {} bereft :=
    ⟨by decide, by decide, by decide, by decide, trivial⟩
  have h := ((session_panic_free bereft).2 hserved).2
  have hrepeated := (h (.edit "b" (.repeated 0x61 (2 ^ 64 - 1))) trivial (by decide)).1
    (fun ⟨_, _, ho⟩ => ho) id
  have hlook := (h (.look "s" .text) trivial (by decide)).1 id id
  exact ⟨⟨_, hrepeated.trans rfl⟩, ⟨_, hlook.trans rfl⟩,
    (h (.edit "b" (.get 2)) trivial (by decide)).2.1 ⟨_, rfl, Nat.le_refl 2⟩⟩

/-- The text of a snapshot whose builder was disposed: it is refused to a read, and stops the
program when it is made by the display, although the step names nothing outside the memory. -/
theorem display_bereft :
    Served Check.maxUnits {} bereft ∧ (run {} bereft).step (.look "s" .text) =
      .ok (.stale, run {} bereft) ∧
    (Step.look "s" .display).WellTyped ∧ (Step.look "s" .display).asks (run {} bereft) = 0 ∧
    ¬ (Step.look "s" .display).Outside (run {} bereft) ∧
    (run {} bereft).stepChecked (.look "s" .display) = .error .display :=
  ⟨⟨by decide, by decide, by decide, by decide, trivial⟩, rfl, trivial, rfl, id, rfl⟩

end Workspace
end ValueText
