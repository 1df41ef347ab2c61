/-
  ValueText.Proofs.Repository.Formatting — the text that a repository makes of a value.

  A repository writes a value into a builder of its pool, reads the text off, and gives
  the builder back.  Formatters of the library write by appends, and nothing that they look
  up depends on the builder; so the writing stands for units, if those of the host do, and
  a text is complete if they all fit.  If they do not, an error is answered under the
  policy that asks for one.  Under the other policy the refused appends are only counted,
  nobody looks at the count, and the text that is answered is one that was cut short.

  Main results:

    • `Setting.Use.sound`   what each use leaves of a pool;
    • `formatting_renders`  the writing of a value stands for units;
    • `formatAnswer_full`   the answer is the complete text, an error, or a shorter text.
-/
import ValueText.Proofs.Formatter.Rendering
import ValueText.Proofs.Repository.Unwrapping

namespace ValueText

open Writing (Renders)
open Repository (hosting)

namespace Setting

variable {o : PoolOptions} {s s' : Setting}

/-! ## §1. Histories. -/

/-- What may happen to a repository and its pool: a step of the repository, declarations and
names of others, and builders that others take or give back. -/
inductive Use : Setting → Setting → Prop
  | step {s s' : Setting} (h : s.Step (fun _ _ => True) s') : Use s s'
  | share (s : Setting) (c : Catalog) (names : EnumNames) : Use s ⟨s.repository, c, names⟩
  | reportFailures (s : Setting) : Use s { s with repository := s.repository.reportFailures }
  | take (s : Setting) : Use s { s with repository := s.repository.rent.2 }
  | giveBack (s : Setting) {b : Builder} (hb : b.Bounded) :
      Use s { s with repository := s.repository.giveBack b }

/-- A step leaves the pool alone or formats a value. -/
theorem Step.sound (h : s.repository.pool.Sound o) (hs : s.Step (fun _ _ => True) s') :
    s'.repository.pool.Sound o := by
  have hsame {r : Repository} (hr : r.pool = s.repository.pool) : r.pool.Sound o := hr ▸ h
  cases hs with
  | learn hc hg => exact h
  | register t f => exact hsame (Repository.pool_registerHandle ..)
  | registerHandle hk valueType f => exact hsame (Repository.pool_registerHandle ..)
  | registerGeneric hk => exact hsame (Repository.pool_registerGeneric ..)
  | setDynamic t => exact hsame (Repository.pool_registerHandle ..)
  | reset =>
      have hreset := s.repository.pool_reset s.catalog
      generalize s.repository.reset s.catalog = p at hreset ⊢
      exact hsame hreset
  | get t => exact hsame (s.repository.pool_get s.catalog t)
  | getRuntime hk => exact hsame (Repository.pool_getRuntime ..)
  | format t v => exact format_sound h t v
  | @write f v hk b =>
      obtain ⟨r, hr, hpool⟩ := Option.map_eq_some_iff.mp (f.pool_write (some v) (s.desk b))
      refine hsame ?_
      show ((f.write (some v) (s.desk b)).2.home.getD s.repository).pool = _
      rw [hr]
      exact hpool

/-- **Every use leaves the pool sound.** -/
theorem Use.sound (h : s.repository.pool.Sound o) (hs : s.Use s') : s'.repository.pool.Sound o := by
  cases hs with
  | step hs => exact hs.sound h
  | share c names => exact h
  | reportFailures => exact h
  | take => exact (Repository.rent_sound h).2.2.2
  | giveBack hb => exact Repository.giveBack_sound h hb

theorem sound_used {roleName : String} {role : HostType} {c : Catalog} {pool : PoolOptions}
    {names : EnumNames}
    (hs : Relation.ReflTransGen Use (Setting.new roleName role c pool names) s) :
    s.repository.pool.Sound pool := by
  -- Induction on the history, with one more use at its end.
  induction hs with
  | refl =>
      rw [Setting.new_eq]
      dsimp only
      rw [Repository.pool_withBuiltins]
      exact Repository.sound_new pool
  | tail _ huse ih => exact huse.sound ih

/-! ## §2. The answer. -/

/-- The writing of a value renders some units, if the writings of the host do. -/
theorem formatting_renders (h : s.repository.Holds (hosting HostWriting.Forthright)) (t : HostType)
    (v : Option View) : ∃ us,
      Renders us (DeskWork.beside ((s.repository.get s.catalog t).1.write v) (s.formatting t)) :=
  (appends_formatting h t v).renders

section Answer

variable {us : List CodeUnit} {t : HostType} {v : Option View}

/-- What is there when a value is written: nothing in the builder, and all of its room. -/
theorem formatting_empty (h : s.repository.pool.Sound o) (t : HostType) :
    (s.formatting t).builder.units = [] ∧
      (s.formatting t).builder.remaining = o.builder.capacity := by
  obtain ⟨hb, hready, -⟩ := formatting_ready h t
  refine ⟨List.eq_nil_of_length_eq_zero (hb.units_length.trans hready.length), ?_⟩
  unfold Builder.remaining
  rw [hready.length, hready.capacity, Nat.sub_zero]

variable (h : s.repository.pool.Sound o)
  (hrenders : Renders us (DeskWork.beside ((s.repository.get s.catalog t).1.write v)
    (s.formatting t)))

include h hrenders

/-- A text that fits is answered as a whole. -/
theorem formatAnswer_of_fits (hfit : us.length ≤ o.builder.capacity) :
    s.formatAnswer t v = .ok (CodeUnit.decode us) := by
  obtain ⟨hb, -, -⟩ := formatting_ready h t
  obtain ⟨hempty, hremaining⟩ := formatting_empty h t
  -- The writing lands in the rented builder, which has nothing else in it.
  obtain ⟨b', hw, hlands, -⟩ := hrenders.writes.fits _ hb (hremaining ▸ hfit)
  obtain ⟨hanswer, hbuilder⟩ := Prod.mk.inj hw
  have hok : ((s.repository.get s.catalog t).1.write v (s.formatting t)).1 = .ok () := hanswer
  have hafter : (s.formatted t v).builder = b' := hbuilder
  rw [formatAnswer_eq, hok, hafter]
  have hunits := hlands.units
  rw [hempty, List.nil_append] at hunits
  exact congrArg (fun us => Except.ok (CodeUnit.decode us)) hunits

/-- A text that does not fit is refused under the policy to do so. -/
theorem formatAnswer_of_error (hp : o.builder.policy = .error)
    (hfull : o.builder.capacity < us.length) : ∃ e, s.formatAnswer t v = .error e := by
  obtain ⟨hb, hready, -⟩ := formatting_ready h t
  obtain ⟨-, hremaining⟩ := formatting_empty h t
  obtain ⟨e, he⟩ := hrenders.refuses _ hb (hready.policy.trans hp) (hremaining ▸ hfull)
  have herror : ((s.repository.get s.catalog t).1.write v (s.formatting t)).1 = .error e := he
  exact ⟨e, by rw [formatAnswer_eq, herror]; rfl⟩

/-- **Under the policy to report, a text that does not fit is answered incomplete.** -/
theorem formatAnswer_of_report (hp : o.builder.policy = .report)
    (hfull : o.builder.capacity < us.length) :
    ∃ text, s.formatAnswer t v = .ok text ∧ text ≠ CodeUnit.decode us := by
  obtain ⟨hb, hready, -⟩ := formatting_ready h t
  obtain ⟨hb', hready'⟩ := formatted_builder h t v
  have hok : ((s.repository.get s.catalog t).1.write v (s.formatting t)).1 = .ok () :=
    hrenders.accepts _ hb (hready.policy.trans hp)
  refine ⟨(s.formatted t v).builder.text, by rw [formatAnswer_eq, hok]; rfl, ?_⟩
  -- What is in the builder is no longer than the builder.
  have hlength := hb'.length
  have hcapacity : (s.formatted t v).builder.capacity = o.builder.capacity := hready'.capacity
  refine CodeUnit.decode_ne_of_shorter ?_
  rw [hb'.units_length]
  omega

end Answer

/-- **The answer to formatting a value is the complete text, if it fits into a builder of the
pool: the one that the same formatter writes to every builder with enough room.  If it does not
fit, the answer is an error under the policy to answer errors, and under the policy to report
it is another text.**  There is a complete text if those formatters of the host that the
repository has stand for one each, as those do that append texts.  **The rented builder is cleared
and back in the pool in any case, unless the pool keeps no builders.** -/
theorem formatAnswer_full {roleName : String} {role : HostType} {c : Catalog} {pool : PoolOptions}
    {names : EnumNames} {s : Setting}
    (hs : Relation.ReflTransGen Use (Setting.new roleName role c pool names) s)
    (t : HostType) (v : Option View) :
    (s.repository.Holds (hosting HostWriting.Forthright) → ∃ us : List CodeUnit,
      (∀ b : Builder, b.Bounded → us.length ≤ b.remaining →
        ((s.repository.get s.catalog t).1.write v ((s.formatting t).onto b)).1 = .ok () ∧
        ((s.repository.get s.catalog t).1.write v ((s.formatting t).onto b)).2.builder.units =
          b.units ++ us) ∧
      (us.length ≤ pool.builder.capacity → s.formatAnswer t v = .ok (CodeUnit.decode us)) ∧
      (pool.builder.capacity < us.length →
        match pool.builder.policy with
        | .error => ∃ e, s.formatAnswer t v = .error e
        | .report => ∃ text, s.formatAnswer t v = .ok text ∧ text ≠ CodeUnit.decode us)) ∧
    (s.formatted t v).builder.clear.Ready pool ∧
    (s.format t v).repository.pool = { s.repository.pool with
      idle := s.repository.pool.idle.tail ++
        if pool.limit = 0 then [] else [(s.formatted t v).builder.clear] } := by
  have hsound := sound_used hs
  refine ⟨fun hholds => ?_, (formatted_builder hsound t v).2, format_giveBack hsound t v⟩
  obtain ⟨us, hrenders⟩ := formatting_renders hholds t v
  refine ⟨us, fun b hb hfit => ?_, formatAnswer_of_fits hsound hrenders, fun hfull => ?_⟩
  · obtain ⟨b', hw, hlands, -⟩ := hrenders.writes.fits b hb hfit
    obtain ⟨hanswer, hbuilder⟩ := Prod.mk.inj hw
    exact ⟨hanswer, hbuilder ▸ hlands.units⟩
  · cases hp : pool.builder.policy with
    | error => exact formatAnswer_of_error hsound hrenders hp hfull
    | report => exact formatAnswer_of_report hsound hrenders hp hfull

end Setting

/-- A pool of builders for two units, which report overflows. -/
def narrowPool : PoolOptions := { builder := ⟨2, .report⟩ }

/-- A new repository with such a pool. -/
def narrowSetting : Setting :=
  Setting.new "log" .object { spelling := Catalog.shortPaths } narrowPool {}

/-- The repository after a formatter of the host was registered for characters, and a truth value
that is missing was formatted. -/
def pencilled : Setting := (narrowSetting.register .char marking).format .bool none

/-- After one value was formatted its builder waits, and the next value gets it. -/
theorem formatAnswer_full_narrow :
    Relation.ReflTransGen Setting.Use narrowSetting pencilled ∧
    pencilled.repository.Holds (hosting HostWriting.Forthright) ∧
    (∃ us : List CodeUnit, ∀ b : Builder, b.Bounded → us.length ≤ b.remaining →
      ((pencilled.repository.get pencilled.catalog .char).1.write (some (.plain (.char 'x')))
        ((pencilled.formatting .char).onto b)).2.builder.units = b.units ++ us) ∧
    (pencilled.formatted .char (some (.plain (.char 'x')))).builder.clear.Ready narrowPool ∧
    (pencilled.format .char (some (.plain (.char 'x')))).repository.pool.idle =
      pencilled.repository.pool.idle.tail ++
        [(pencilled.formatted .char (some (.plain (.char 'x')))).builder.clear] := by
  have hregister : Setting.Use narrowSetting (narrowSetting.register .char marking) :=
    .step (.register narrowSetting .char marking)
  have hformat : Setting.Use (narrowSetting.register .char marking) pencilled :=
    .step (.format (narrowSetting.register .char marking) .bool none)
  have hs : Relation.ReflTransGen Setting.Use narrowSetting pencilled :=
    Relation.ReflTransGen.tail (Relation.ReflTransGen.single hregister) hformat
  -- The formatter appends one text for every value.
  have hmarking : marking.Hosts HostWriting.Forthright :=
    fun v => HostWriting.forthright_texts ["T"]
  have hnarrow : narrowSetting.repository.Holds (hosting HostWriting.Forthright) :=
    Setting.holds_new ..
  have hholds : pencilled.repository.Holds (hosting HostWriting.Forthright) :=
    Setting.holds_format (Setting.holds_register hnarrow .char hmarking) .bool none
  obtain ⟨hanswer, hready, hpool⟩ := Setting.formatAnswer_full hs .char (some (.plain (.char 'x')))
  obtain ⟨us, hwrites, -⟩ := hanswer hholds
  rw [if_neg (by decide : ¬ narrowPool.limit = 0)] at hpool
  refine ⟨hs, hholds, ⟨us, fun b hb hfit => (hwrites b hb hfit).2⟩, hready, ?_⟩
  rw [hpool]

/-- **A success may be an incomplete text**: the formatter that writes `true` to a builder with
enough room has nothing of it in the text that the repository answers. -/
theorem formatAnswer_incomplete :
    (narrowSetting.formatAnswer .bool (some (.plain (.bool true)))).toOption = some "" ∧
    (((narrowSetting.repository.get narrowSetting.catalog .bool).1.write
      (some (.plain (.bool true)))
      ((narrowSetting.formatting .bool).onto (.new ⟨8, .report⟩))).1.toOption = some () ∧
    ((narrowSetting.repository.get narrowSetting.catalog .bool).1.write
      (some (.plain (.bool true)))
      ((narrowSetting.formatting .bool).onto (.new ⟨8, .report⟩))).2.builder.text = "true") := by
  decide +kernel

end ValueText
