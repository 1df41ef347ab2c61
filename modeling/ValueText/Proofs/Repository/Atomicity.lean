/-
  ValueText.Proofs.Repository.Atomicity — the output of built-in formatters is all or nothing.

  A desk without its builder decides what a formatter writes: which formatters it is
  left to, and which units they append.  The builder only decides whether there is
  room.  So the work at a desk is a writing of the builder (`DeskWork.beside`), and the
  rules of writing carry `Writes` from the single appends to values of any nesting.

  Main results:

    • `Desk.Stands`         the work stands for units that the rest of the desk decides;
    • `builtinRules`        it does for all that built-in formatters do;
    • `write_allOrNothing`  formatters of a repository that holds only built-in ones write
                            all of their units or none.
-/
import ValueText.Proofs.Formatter.Atomic
import ValueText.Proofs.Repository.Hosts
import ValueText.Proofs.Types.Orderly

namespace ValueText

open Builder (Ahead Restored)

/-! ## §1. Work beside a builder. -/

/-- The origins of a repository that holds only built-in formatters. -/
def builtins : Factory.Origins Handle Slot where
  registered _ h := h.formatter.Builtin
  made h := h.formatter.Builtin
  fallback _ h := h.formatter.Builtin
  subscribes _ _ := True

/-- The repository, unless it is gone, holds only built-in formatters. -/
def Desk.Builtin (d : Desk) : Prop := ∀ r, d.home = some r → r.Holds builtins

/-- The work stands for some units; where it is not stopped, what it makes of the rest of the
desk does not depend on the builder. -/
def Desk.Stands (After : Builder → UInt64 → Builder → Prop) (x : DeskWork Unit) : Prop :=
  AmountsTo Builtin (fun w => ∃ us, Writes After us w) x

/-! ## §2. Formatters that are built in are not of the host. -/

theorem Formatter.builtin_iff {f : Formatter} : f.Builtin ↔ f.Hosts fun _ => False := by
  cases f with
  | direct t f =>
      cases f with
      | custom kind writing => exact ⟨False.elim, fun h => h none⟩
      | _ => exact .rfl
  | general f =>
      cases f with
      | custom kind writing => exact ⟨False.elim, fun h => h none⟩
      | _ => exact .rfl

/-- A repository that holds only built-in formatters has none of the host. -/
theorem builtins_eq : builtins = Repository.hosting fun _ => False := by
  have hsame : (fun h : Handle => h.formatter.Builtin) =
      fun h => h.formatter.Hosts fun _ => False :=
    funext fun _ => propext Formatter.builtin_iff
  unfold builtins Repository.hosting
  rw [Factory.Origins.mk.injEq]
  exact ⟨funext fun _ => hsame, hsame, funext fun _ => hsame, rfl⟩

namespace Repository

variable {r : Repository}

/-- **The formatter for values of a type is built in**, and looking it up keeps the repository. -/
theorem builtin_getRuntime (hr : r.Holds builtins) (d : Descriptor) :
    (r.getRuntime d).1.formatter.Builtin ∧ (r.getRuntime d).2.Holds builtins := by
  rw [builtins_eq] at hr ⊢
  obtain ⟨hhosts, hleft⟩ := hosts_getRuntime hr d
  exact ⟨Formatter.builtin_iff.mpr hhosts, hleft⟩

end Repository

/-! ## §3. Writing with built-in formatters. -/

open Desk (Stands)

/-- **Writings that stand for units are handed on**, and those that are taken back together stand
for them as a whole. -/
theorem builtinWritings : WritingRules Formatter.Builtin (fun w => ∃ us, Writes Restored us w)
    (fun w => ∃ us, Writes Ahead us w) where
  leaf h := by
    cases h with
    | view h v => exact TypedFormatter.writes_writeView h v
    | custom h v => exact h.elim
    | text s => exact ⟨_, .text s⟩
    | units us => exact ⟨_, .units us⟩
    | braced s => exact ⟨_, .braced s⟩
  texts ss := ⟨_, .texts ss⟩
  series := fun ⟨us, hw⟩ => ⟨us, hw.series⟩
  seq := fun ⟨us, hw⟩ ⟨vs, hw'⟩ => ⟨us ++ vs, hw.seq hw'⟩
  atomic := fun ⟨us, hw⟩ => ⟨us, hw.atomic⟩

/-- **The rules of writing carry all or nothing**, for built-in formatters. -/
theorem builtinRules : Rules (fun _ _ : Unit => True) Formatter.Builtin (fun _ _ => True)
    (fun _ x P => Desk.LooksUp Desk.Builtin x (P ())) (fun _ => Stands Restored)
    (fun _ => Stands Ahead) := by
  refine builtinWritings.rules (J := fun home => ∀ r, home = some r → r.Holds builtins) ?_
  intro r t hr
  obtain ⟨hbuiltin, hleft⟩ := Repository.builtin_getRuntime (hr r rfl) t
  exact ⟨hbuiltin, fun _ he => Option.some.inj he ▸ hleft⟩

theorem Formatter.stands_write {f : Formatter} (hf : f.Builtin) (v : Option TypedValue) :
    Stands Restored (f.write v) := by
  cases v with
  | some v => exact builtinRules.writeValue () f v hf trivial
  | none =>
      have hnull : Stands Restored (Desk.append Writing.null) :=
        builtinRules.leaf (m := ()) (.text "null")
      match f, hf with
      | .direct t f, hf => exact .append (TypedFormatter.writes_writeNull hf)
      | .general (.custom k writing), hf => exact hf.elim
      | .general .fallback, _ => exact hnull
      | .general .dynamic, _ => exact hnull
      | .general (.nullable inner), _ => exact hnull
      | .general .anonymous, _ => exact hnull
      | .general (.enumeration shape), _ => exact hnull

theorem StaticFormatter.stands_write {f : StaticFormatter} (hf : f.Hosts fun _ => False)
    (v : Option View) : Stands Restored (f.write v) := by
  match f, v with
  | .exact f, v =>
      have hbuiltin : Formatter.Builtin (.direct .bool f) := Formatter.builtin_iff.mpr hf
      cases v with
      | some v => exact .append (TypedFormatter.writes_writeView hbuiltin v)
      | none => exact .append (TypedFormatter.writes_writeNull hbuiltin)
  | .converting f, none => exact Formatter.stands_write (Formatter.builtin_iff.mpr hf) none
  | .converting f, some v =>
      have htyped := builtinRules.typed () v.value
      exact htyped.amountsTo fun t _ =>
        Formatter.stands_write (Formatter.builtin_iff.mpr hf) (some ⟨v.value, t⟩)

/-! ## §4. All or nothing. -/

/-- The work appends certain units to every builder that has room for them.  A builder that
has not keeps its content and counts at least one overflow more, and the work is answered as
the policy says.  No builder of the host has room for `2 ^ 64` units. -/
def Desk.AllOrNothing (d : Desk) (x : DeskWork Unit) : Prop :=
  ∃ us : List CodeUnit, ∀ b : Builder, b.Bounded →
    (us.length ≤ b.remaining →
      (x (d.onto b)).1 = .ok () ∧
      (x (d.onto b)).2.builder.units = b.units ++ us ∧
      (x (d.onto b)).2.builder.overflows = b.overflows) ∧
    (b.remaining < us.length → us.length < 2 ^ 64 →
      (match b.policy with
        | .report => (x (d.onto b)).1 = .ok ()
        | .error => ∃ e, (x (d.onto b)).1 = .error e) ∧
      (x (d.onto b)).2.builder.units = b.units ∧
      ∃ k, 0 < k ∧ k ≤ us.length ∧
        (x (d.onto b)).2.builder.overflows = b.overflows + UInt64.ofNat k)

theorem Desk.Stands.allOrNothing {x : DeskWork Unit} (h : Stands Restored x) {d : Desk}
    (hd : d.Builtin) : d.AllOrNothing x := by
  obtain ⟨⟨us, hw⟩, -⟩ := h d hd
  refine ⟨us, fun b hb => ⟨fun hfit => ?_, fun hfull hsize => ?_⟩⟩
  · obtain ⟨b', hrun, hl, -⟩ := hw.fits b hb hfit
    obtain ⟨hanswer, rfl⟩ := Prod.mk.inj hrun
    exact ⟨hanswer, hl.units, hl.overflows⟩
  · obtain ⟨b', k, hrun, hr, -, hk, hle⟩ := hw.full b hb hfull hsize
    cases hp : b.policy with
    | report =>
        rw [hp] at hrun
        obtain ⟨hanswer, rfl⟩ := Prod.mk.inj hrun
        exact ⟨hanswer, hr.units, k, hk, hle, hr.overflows⟩
    | error =>
        rw [hp] at hrun
        obtain ⟨e, hrun⟩ := hrun
        obtain ⟨hanswer, rfl⟩ := Prod.mk.inj hrun
        exact ⟨⟨e, hanswer⟩, hr.units, k, hk, hle, hr.overflows⟩

/-- **The output of built-in formatters is all or nothing.**  The formatters that a
repository gives out, for a host type or for values of a type, may be used when it has
changed, or is gone, as long as it holds only built-in formatters. -/
theorem write_allOrNothing {r : Repository} (hr : r.Holds builtins) {d : Desk} (hd : d.Builtin) :
    (∀ c t v, d.AllOrNothing ((r.get c t).1.write v)) ∧
    (∀ t v, d.AllOrNothing ((r.getRuntime t).1.formatter.write v)) := by
  constructor
  · intro c t v
    rw [builtins_eq] at hr
    have hhosts := (Repository.hosts_get hr c t).1
    exact (StaticFormatter.stands_write hhosts v).allOrNothing hd
  · intro t v
    have hbuiltin := (Repository.builtin_getRuntime hr t).1
    exact (Formatter.stands_write hbuiltin v).allOrNothing hd

/-- A new repository. -/
def freshRepository : Repository :=
  (Repository.new "log" .object { spelling := Catalog.shortPaths } {}).1

/-- A desk of the new repository, with room for four units. -/
def freshDesk : Desk :=
  ⟨.new ⟨4, .report⟩, { spelling := Catalog.shortPaths }, some freshRepository, {}⟩

/-- A type of records without a name, which have a number. -/
def freshRecord : Descriptor :=
  { facts := { key := .host (.other "Record"), name := "Record", isAnonymous := true
               properties := [⟨"number", .other "Record", .number⟩] } }

theorem write_allOrNothing_fresh :
    freshRepository.Holds builtins ∧ freshDesk.Builtin ∧
      freshDesk.AllOrNothing ((freshRepository.get freshDesk.catalog .string).1.write
        (some (.plain (.string "text")))) ∧
      freshDesk.AllOrNothing ((freshRepository.getRuntime freshRecord).1.formatter.write
        (some ⟨.object "Record" "" (some 7) .complete [], freshRecord⟩)) := by
  have hr : freshRepository.Holds builtins := by
    rw [builtins_eq]
    exact Repository.holds_new ..
  have hd : freshDesk.Builtin := by
    intro r he
    have hhome : freshRepository = r := Option.some.inj he
    exact hhome ▸ hr
  obtain ⟨hget, hgetRuntime⟩ := write_allOrNothing hr hd
  exact ⟨hr, hd, hget _ _ _, hgetRuntime _ _⟩

end ValueText
