/-
  ValueText.Proofs.Repository.Delegation — formatters that leave values to others.

  A dynamic formatter looks up the formatter for the type of a value and leaves the value
  to it.  If that were dynamic in its turn, it would look up itself.  It is not: whatever
  is delivered to a slot for values goes through `runtimeHandle`, which puts another
  formatter in the place of a dynamic one, and all that is remembered was delivered.

  A repository is taken in any state that its operations lead to, over any catalogues.

      Arises       the states of a repository
      writeChecked writing with an alarm in the places where a value would come back

  Main results:

    • `Arises.holds`                  what a repository remembers was delivered, in every
                                      state of it;
    • `Formatter.coincide_writeValue` no alarm is raised, however values are nested;
    • `dynamic_delegates`             the formatter for values of a type is not dynamic, and
                                      what a dynamic formatter does with a value.
-/
import ValueText.Proofs.Repository.Holding
import ValueText.Proofs.Repository.Rules
import ValueText.Proofs.Types.Orderly

namespace ValueText

open Factory (Origins)

/-! ## §1. Kinds. -/

namespace Repository

theorem kind_runtimeFallback (d : Descriptor) : (runtimeFallback d).kind ≠ .dynamic := by
  unfold runtimeFallback Handle.kind
  dsimp only
  split
  · exact nofun
  · split <;> exact nofun

/-- The formatter for values of a type never leaves them to another one. -/
theorem kind_runtimeHandle (d : Descriptor) (h : Handle) : (runtimeHandle d h).kind ≠ .dynamic := by
  unfold runtimeHandle
  split
  · exact kind_runtimeFallback d
  · next hk => rw [hk]; exact nofun
  · next hk => rw [hk]; exact nofun

end Repository

theorem Formatter.rank_lt {f : Formatter} (hk : f.kind ≠ .dynamic) : f.rank < 3 := by
  match f, hk with
  | .direct _ _, _ => exact Nat.zero_lt_succ 2
  | .general .fallback, _ => exact Nat.lt_succ_self 2
  | .general .dynamic, hk => exact absurd rfl hk
  | .general .anonymous, _ => exact Nat.one_lt_succ_succ 1
  | .general (.nullable _), _ => exact Nat.zero_lt_succ 2
  | .general (.enumeration _), _ => exact Nat.zero_lt_succ 2
  | .general (.custom _ _), _ => exact Nat.zero_lt_succ 2

/-- A formatter that is neither dynamic nor the default one does not look up the type again. -/
theorem Formatter.rank_lt_two {f : Formatter} (hk : f.kind ≠ .dynamic) (hd : f.kind ≠ .default) :
    f.rank < 2 := by
  match f, hk, hd with
  | .direct _ _, _, _ => exact Nat.zero_lt_succ 1
  | .general .fallback, _, hd => exact absurd rfl hd
  | .general .dynamic, hk, _ => exact absurd rfl hk
  | .general .anonymous, _, _ => exact Nat.lt_succ_self 1
  | .general (.nullable _), _, _ => exact Nat.zero_lt_succ 1
  | .general (.enumeration _), _, _ => exact Nat.zero_lt_succ 1
  | .general (.custom _ _), _, _ => exact Nat.zero_lt_succ 1

/-! ## §2. The states of a repository. -/

namespace Repository

/-- Everything is an origin. -/
def anyOrigin : Origins Handle Slot :=
  ⟨fun _ _ => True, fun _ => True, fun _ _ => True, fun _ _ => True⟩

/-- The states that the operations lead to, whatever they are given. -/
inductive Arises : Repository → Prop
  | new (roleName : String) (role : HostType) (c : Catalog) (pool : PoolOptions) :
      Arises (Repository.new roleName role c pool).1
  | get {r : Repository} (h : Arises r) (c : Catalog) (t : HostType) : Arises (r.get c t).2.1
  | getRuntime {r : Repository} (h : Arises r) (d : Descriptor) : Arises (r.getRuntime d).2
  | register {r : Repository} (h : Arises r) (c : Catalog) (t : HostType) (f : TypedFormatter) :
      Arises (r.register c t f).2.1
  | registerHandle {r : Repository} (h : Arises r) (target valueType : Descriptor) (f : Formatter) :
      Arises (r.registerHandle target valueType f).2
  | registerGeneric {r : Repository} (h : Arises r) (definition : Descriptor)
      (k : Constructor Handle) : Arises (r.registerGeneric definition k).2
  | setDynamic {r : Repository} (h : Arises r) (c : Catalog) (t : HostType) :
      Arises (r.setDynamic c t).2.1
  | reset {r : Repository} (h : Arises r) (c : Catalog) : Arises (r.reset c).1
  | format {r : Repository} (h : Arises r) (c : Catalog) (names : EnumNames) (t : HostType)
      (v : Option View) : Arises (r.format c names t v).repository
  /-- A formatter of the repository is used. -/
  | write {r r' : Repository} (h : Arises r) (f : StaticFormatter) (v : Option View) (d : Desk)
      (hd : d.home = some r) (hd' : (f.write v d).2.home = some r') : Arises r'
  | writeValue {r r' : Repository} (h : Arises r) (f : Formatter) (v : TypedValue) (d : Desk)
      (hd : d.home = some r) (hd' : (f.writeValue v d).2.home = some r') : Arises r'
  | reportFailures {r : Repository} (h : Arises r) : Arises r.reportFailures
  /-- Builders are taken and given back, and the notices are read. -/
  | other {r : Repository} (h : Arises r) (p : Pool Builder) (ns : List (Notice Handle Slot)) :
      Arises { r with pool := p, notices := ns }

variable {r : Repository}

theorem kind_of_givesRuntime {O : Origins Handle Slot} {k : TypeKey} {h : Handle}
    (hg : GivesRuntime O k h) : h.kind ≠ .dynamic := by
  obtain ⟨d, X, answer, -, -, -, rfl⟩ := hg
  exact kind_runtimeHandle d answer.extension

namespace Holds

/-- What is looked up for values is not dynamic. -/
theorem lookedUp (h : r.Holds anyOrigin) (d : Descriptor) :
    (r.getRuntime d).1.kind ≠ .dynamic ∧ (r.getRuntime d).2.Holds anyOrigin := by
  obtain ⟨hgives, hleft⟩ := h.getRuntime (d := d) trivial trivial
  exact ⟨kind_of_givesRuntime hgives, hleft.holds⟩

theorem registered (h : r.Holds anyOrigin) (target valueType : Descriptor) (f : Formatter) :
    (r.registerHandle target valueType f).2.Holds anyOrigin :=
  (h.registerHandle trivial).holds

theorem registering (bs : List (HostType × TypedFormatter)) : ∀ {p : Repository × Catalog},
    p.1.Holds anyOrigin → (bs.foldl Repository.registering p).1.Holds anyOrigin := by
  induction bs with
  | nil => exact fun h => h
  | cons b rest ih => exact fun h => ih (h.registered _ _ _)

theorem withBuiltins (h : r.Holds anyOrigin) (c : Catalog) :
    (r.withBuiltins c).1.Holds anyOrigin := by
  have htyped := registering typedBuiltins (p := (r, c)) h
  unfold Repository.withBuiltins
  generalize typedBuiltins.foldl Repository.registering (r, c) = p at htyped ⊢
  obtain ⟨r₁, c₁⟩ := p
  have hnullable : Continues anyOrigin r₁
      (r₁.registerGeneric Catalog.nullableDefinition nullableConstructor).2 :=
    htyped.registerGeneric fun _ _ _ _ => trivial
  exact hnullable.holds.registered _ _ _

end Holds

end Repository

/-! ## §3. Writing with an alarm. -/

namespace Formatter

mutual

/-- Writes a value with its type.  The alarm is raised where a formatter that leaves its values to
others would leave one to a formatter of its own sort. -/
def writeChecked (alarm : TypedValue → DeskWork Unit) (f : Formatter) (v : TypedValue) :
    DeskWork Unit :=
  match f with
  | .direct t f => do
      match ← Desk.cast? v t with
      | some view => Desk.append (f.writeView view)
      | none => Desk.append (Writing.braced v.type.fullName)
  | .general (.custom _ writing) => Desk.append (writing (some v)).run
  | .general (.enumeration shape) =>
      match v.value.enumerator? shape.type with
      | none => Desk.append (Writing.braced v.type.fullName)
      | some n => do
          let s ← Desk.nameOf shape n
          Desk.append (Writing.text s)
  | .general .fallback => do
      if v.type.isPlainData then
        match ← Desk.formatterFor v.type with
        | some h =>
            if _default : h.kind = .default then Desk.append v.writePlain
            else if _dynamic : h.kind = .dynamic then alarm v
            else writeChecked alarm h.formatter v
        | none => Desk.append v.writePlain
      else Desk.append v.writePlain
  | .general .dynamic => do
      match ← Desk.formatterFor v.type with
      | some h =>
          if _dynamic : h.kind = .dynamic then alarm v
          else writeChecked alarm h.formatter v
      | none => Desk.append (Writing.braced v.type.fullName)
  | .general (.nullable inner) =>
      match v.type.nullable with
      | none => Desk.append (Writing.braced v.type.fullName)
      | some content =>
          match content.key with
          | .named _ => Desk.append Writing.null
          | .host t =>
              match _part : v.value.unwrap? t with
              | none => Desk.append Writing.null
              | some w => do
                  match ← Desk.formatterFor content with
                  | some h => writeChecked alarm h.formatter ⟨w, content⟩
                  | none => Desk.append (Writing.braced inner.fullName)
  | .general .anonymous => do
      if ← Desk.isHomeless then Desk.append (Writing.braced v.type.fullName)
      else
        Desk.atomic do
          Desk.append (Writing.text "\x7b ")
          writePropertiesChecked alarm v v.type.facts.properties true
termination_by (v.value.weight, f.rank, 0)
decreasing_by
  · exact Prod.Lex.right _ (Prod.Lex.left _ _ (rank_lt_two _dynamic _default))
  · exact Prod.Lex.right _ (Prod.Lex.left _ _ (rank_lt _dynamic))
  · exact Prod.Lex.left _ _ (Value.weight_unwrap?_lt _part)
  · exact Prod.Lex.right _ (Prod.Lex.left _ _ (by simp [rank]))

/-- Writes properties that are not null, and the end of the record. -/
def writePropertiesChecked (alarm : TypedValue → DeskWork Unit) (v : TypedValue)
    (ps : List Property) (first : Bool) : DeskWork Unit :=
  match ps with
  | [] => Desk.append (if first then Writing.units [0x7D] else Writing.text " \x7d")
  | p :: rest =>
      match _part : p.read? v.value with
      | none => writePropertiesChecked alarm v rest first
      | some w => do
          Desk.append (Writing.texts ((if first then [] else [", "]) ++ [p.name, " = "]))
          let t ← Desk.typed w
          match ← Desk.formatterFor t with
          | some h => writeChecked alarm h.formatter ⟨w, t⟩
          | none => Desk.append (Writing.braced t.fullName)
          writePropertiesChecked alarm v rest false
termination_by (v.value.weight, 0, ps.length)
decreasing_by
  · exact Prod.Lex.right _ (Prod.Lex.right _ (by simp))
  · exact Prod.Lex.right _ (Prod.Lex.right _ (by simp))
  · exact Prod.Lex.left _ _ (Property.weight_read?_lt _part)

end

end Formatter

/-- The repository of the desk remembers nothing dynamic for values. -/
def Desk.Fit (d : Desk) : Prop := ∀ r, d.home = some r → r.Holds Repository.anyOrigin

/-- The works do the same at every desk that is fit, and leave a fit desk. -/
def Coincide (x y : DeskWork Unit) : Prop := ∀ d : Desk, d.Fit → x d = y d ∧ (y d).2.Fit

/-- The work only looks something up, which `P` holds of, and leaves a fit desk. -/
def LooksUp {α : Type} (x : DeskWork α) (P : α → Prop) : Prop :=
  ∀ d : Desk, d.Fit → ∃ a d', x d = (.ok a, d') ∧ d'.Fit ∧ P a

namespace Coincide

variable {x x' y y' : DeskWork Unit}

theorem append (w : Writing Unit) : Coincide (Desk.append w) (Desk.append w) :=
  fun _ hd => ⟨rfl, hd⟩

theorem look {α : Type} {l : DeskWork α} {P : α → Prop} {k k' : α → DeskWork Unit}
    (h : LooksUp l P) (hk : ∀ a, P a → Coincide (k a) (k' a)) : Coincide (l >>= k) (l >>= k') := by
  intro d hd
  obtain ⟨a, d', hrun, hd', ha⟩ := h d hd
  rw [Desk.run_bind_ok hrun, Desk.run_bind_ok hrun]
  exact hk a ha d' hd'

theorem seq (h : Coincide x y) (h' : Coincide x' y') :
    Coincide (x >>= fun _ => x') (y >>= fun _ => y') := by
  intro d hd
  obtain ⟨heq, hleft⟩ := h d hd
  cases hrun : y d with
  | mk answer after =>
  rw [hrun] at heq hleft
  cases answer with
  | error e =>
      rw [Desk.run_bind_error heq, Desk.run_bind_error hrun]
      exact ⟨rfl, hleft⟩
  | ok u =>
      rw [Desk.run_bind_ok heq, Desk.run_bind_ok hrun]
      exact h' after hleft

theorem atomic (h : Coincide x y) : Coincide (Desk.atomic x) (Desk.atomic y) := by
  intro d hd
  obtain ⟨heq, hleft⟩ := h d hd
  refine ⟨?_, hleft⟩
  unfold Desk.atomic
  rw [heq]

end Coincide

theorem looksUp_formatterFor (t : Descriptor) :
    LooksUp (Desk.formatterFor t) fun o => ∀ h, o = some h → h.kind ≠ .dynamic := by
  intro d hd
  cases hhome : d.home with
  | none => exact ⟨none, d, Desk.formatterFor_gone hhome t, hd, nofun⟩
  | some r =>
      obtain ⟨hkind, hleft⟩ := (hd r hhome).lookedUp t
      refine ⟨some (r.getRuntime t).1, { d with home := some (r.getRuntime t).2 },
        Desk.formatterFor_there hhome t, fun r' he => ?_, fun h he => ?_⟩
      · cases he
        exact hleft
      · cases he
        exact hkind

namespace Formatter

variable (alarm : TypedValue → DeskWork Unit)

mutual

/-- **No alarm is raised** by writing a value, whoever it is left to. -/
theorem coincide_writeValue (f : Formatter) (v : TypedValue) :
    Coincide (f.writeChecked alarm v) (f.writeValue v) := by
  unfold writeChecked writeValue
  match f with
  | .direct t f =>
      refine Coincide.look (P := fun _ => True) (fun d hd => ⟨_, d, rfl, hd, trivial⟩) fun o _ => ?_
      cases o <;> exact .append _
  | .general (.custom k writing) => exact .append _
  | .general (.enumeration shape) =>
      dsimp only
      cases v.value.enumerator? shape.type with
      | none => exact .append _
      | some n =>
          exact Coincide.look (P := fun _ => True) (fun d hd => ⟨_, _, rfl, hd, trivial⟩)
            fun s _ => .append _
  | .general .fallback =>
      dsimp only
      split
      · refine .look (looksUp_formatterFor v.type) fun o ho => ?_
        cases o with
        | none => exact .append _
        | some h =>
            dsimp only
            by_cases hdefault : h.kind = .default
            · rw [dif_pos hdefault, if_pos hdefault]
              exact .append _
            · rw [dif_neg hdefault, if_neg hdefault, dif_neg (ho h rfl),
                dif_pos (rank_lt_two (ho h rfl) hdefault)]
              exact coincide_writeValue h.formatter v
      · exact .append _
  | .general .dynamic =>
      refine .look (looksUp_formatterFor v.type) fun o ho => ?_
      cases o with
      | none => exact .append _
      | some h =>
          dsimp only
          rw [dif_neg (ho h rfl), dif_pos (rank_lt (ho h rfl))]
          exact coincide_writeValue h.formatter v
  | .general (.nullable inner) =>
      dsimp only
      cases v.type.nullable with
      | none => exact .append _
      | some content =>
          dsimp only
          cases content.key with
          | named name => exact .append _
          | host t =>
              dsimp only
              generalize hpart : v.value.unwrap? t = part
              cases part with
              | none => exact .append _
              | some w =>
                  refine .look (looksUp_formatterFor content) fun o _ => ?_
                  cases o with
                  | none => exact .append _
                  | some h => exact coincide_writeValue h.formatter ⟨w, content⟩
  | .general .anonymous =>
      refine Coincide.look (P := fun _ => True) (fun d hd => ⟨_, d, rfl, hd, trivial⟩)
        fun gone _ => ?_
      split
      · exact .append _
      · exact (Coincide.seq (.append _)
          (coincide_writeProperties v v.type.facts.properties true)).atomic
termination_by (v.value.weight, f.rank, 0)
decreasing_by
  · exact Prod.Lex.right _ (Prod.Lex.left _ _ (rank_lt_two (ho h rfl) hdefault))
  · exact Prod.Lex.right _ (Prod.Lex.left _ _ (rank_lt (ho h rfl)))
  · exact Prod.Lex.left _ _ (Value.weight_unwrap?_lt (by assumption))
  · exact Prod.Lex.right _ (Prod.Lex.left _ _ (by decide))

theorem coincide_writeProperties (v : TypedValue) (ps : List Property) (first : Bool) :
    Coincide (writePropertiesChecked alarm v ps first) (writeProperties v ps first) := by
  unfold writePropertiesChecked writeProperties
  match ps with
  | [] => exact .append _
  | p :: rest =>
      dsimp only
      generalize hpart : p.read? v.value = part
      cases part with
      | none => exact coincide_writeProperties v rest first
      | some w =>
          have hrest := coincide_writeProperties v rest false
          refine .seq (.append _) ?_
          refine Coincide.look (P := fun _ => True) (fun d hd => ⟨_, _, rfl, hd, trivial⟩)
            fun t _ => ?_
          refine .look (looksUp_formatterFor t) fun o _ => ?_
          cases o with
          | none => exact .seq (.append _) hrest
          | some h => exact .seq (coincide_writeValue h.formatter ⟨w, t⟩) hrest
termination_by (v.value.weight, 0, ps.length)
decreasing_by
  · exact Prod.Lex.right _ (Prod.Lex.right _ (Nat.lt_succ_self _))
  · exact Prod.Lex.right _ (Prod.Lex.right _ (Nat.lt_succ_self _))
  · exact Prod.Lex.left _ _ (Property.weight_read?_lt (by assumption))

end

end Formatter

/-- Writes a value that is known to be of a host type, or null, with the alarm. -/
def StaticFormatter.writeChecked (alarm : TypedValue → DeskWork Unit) (f : StaticFormatter)
    (v : Option View) : DeskWork Unit :=
  match f, v with
  | .exact f, v => Desk.append (f.write v)
  | .converting f, none => Desk.append f.writeNull
  | .converting f, some v => do
      let t ← Desk.typed v.value
      f.writeChecked alarm ⟨v.value, t⟩

theorem StaticFormatter.coincide_write (alarm : TypedValue → DeskWork Unit) (f : StaticFormatter)
    (v : Option View) : Coincide (f.writeChecked alarm v) (f.write v) := by
  match f, v with
  | .exact f, v => exact .append _
  | .converting f, none => exact .append _
  | .converting f, some v =>
      exact Coincide.look (P := fun _ => True) (fun d hd => ⟨_, _, rfl, hd, trivial⟩)
        fun t _ => f.coincide_writeValue alarm ⟨v.value, t⟩

/-! ## §4. All states. -/

namespace Repository

theorem Holds.anyFormatted {r : Repository} (h : r.Holds anyOrigin) (c : Catalog)
    (names : EnumNames) (t : HostType) (v : Option View) :
    (r.format c names t v).repository.Holds anyOrigin := by
  have hget := (h.get (c := c) (t := t) trivial trivial).2.holds
  unfold Repository.format
  generalize r.get c t = out at hget
  obtain ⟨f, r₁, c₁⟩ := out
  -- The pool is not what a repository remembers.
  have hrent : r₁.rent.2.Holds anyOrigin := by
    unfold Repository.rent
    split <;> exact hget.of_eq rfl rfl rfl
  dsimp only
  generalize r₁.rent = rented at hrent
  obtain ⟨b, r₂⟩ := rented
  have hleft := (f.coincide_write (fun _ => Desk.append Writing.null) v ⟨b, c₁, some r₂, names⟩
    fun r' he => by cases he; exact hrent).2
  dsimp only
  generalize f.write v ⟨b, c₁, some r₂, names⟩ = written at hleft
  obtain ⟨answer, d⟩ := written
  have hhome : (d.home.getD r₂).Holds anyOrigin := by
    cases hd : d.home with
    | none => exact hrent
    | some r' => exact hleft r' hd
  show ((d.home.getD r₂).giveBack d.builder).Holds anyOrigin
  unfold Repository.giveBack
  split
  · exact hhome.of_eq rfl rfl rfl
  · exact hhome
  · exact hhome
  · exact hhome

/-- **All that is remembered for values was delivered**, in every state. -/
theorem Arises.holds {r : Repository} (h : r.Arises) : r.Holds anyOrigin := by
  induction h with
  | new roleName role c pool =>
      unfold Repository.new
      generalize c.typeOf role = t
      obtain ⟨d, c'⟩ := t
      dsimp only
      apply Holds.withBuiltins
      exact (holds_forget ⟨roleName, { role := some d }, .empty, .empty, .new pool, 0, []⟩).of_eq
        rfl rfl rfl
  | get _ c t ih => exact (ih.get trivial trivial).2.holds
  | getRuntime _ d ih => exact (ih.lookedUp d).2
  | register _ c t f ih => exact ih.registered _ _ _
  | registerHandle _ target valueType f ih => exact ih.registered _ _ _
  | registerGeneric _ definition k ih => exact (ih.registerGeneric fun _ _ _ _ => trivial).holds
  | setDynamic _ c t ih => exact ih.registered _ _ _
  | reset _ c ih => exact (holds_forget _).withBuiltins c
  | format _ c names t v ih => exact ih.anyFormatted c names t v
  | write _ f v d hd hd' ih =>
      exact (f.coincide_write (fun _ => Desk.append Writing.null) v d fun r he =>
        Option.some.inj (hd.symm.trans he) ▸ ih).2 _ hd'
  | writeValue _ f v d hd hd' ih =>
      exact (f.coincide_writeValue (fun _ => Desk.append Writing.null) v d fun r he =>
        Option.some.inj (hd.symm.trans he) ▸ ih).2 _ hd'
  | reportFailures _ ih => exact ⟨⟨ih.factory.instances, ih.factory.generics, ih.factory.made,
      ih.factory.subscribed⟩, ih.statics, ih.runtime⟩
  | other _ p ns ih => exact ih.of_eq rfl rfl rfl

/-- **A dynamic formatter never leaves a value to a dynamic one.**  In every state of a repository
the formatter for values of a type is not dynamic.  To write a value, a dynamic formatter lets
that one write it.  So no alarm is raised while a value is written, however it is nested. -/
theorem dynamic_delegates {r : Repository} (h : r.Arises) :
    (∀ t, (r.getRuntime t).1.kind ≠ .dynamic) ∧
    (∀ (v : TypedValue) (b : Builder) (c : Catalog) (names : EnumNames),
      (Formatter.general .dynamic).writeValue v ⟨b, c, some r, names⟩ =
        (r.getRuntime v.type).1.formatter.writeValue v
          ⟨b, c, some (r.getRuntime v.type).2, names⟩) ∧
    ∀ (alarm : TypedValue → DeskWork Unit) (b : Builder) (c : Catalog) (names : EnumNames),
      (∀ (f : Formatter) (v : TypedValue),
        f.writeChecked alarm v ⟨b, c, some r, names⟩ = f.writeValue v ⟨b, c, some r, names⟩) ∧
      ∀ (f : StaticFormatter) (v : Option View),
        f.writeChecked alarm v ⟨b, c, some r, names⟩ = f.write v ⟨b, c, some r, names⟩ := by
  have hkind (t : Descriptor) := (h.holds.lookedUp t).1
  have hfit (b : Builder) (c : Catalog) (names : EnumNames) :
      (⟨b, c, some r, names⟩ : Desk).Fit := by
    intro r' he
    cases he
    exact h.holds
  refine ⟨hkind, fun v b c names => ?_, fun alarm b c names => ⟨fun f v => ?_, fun f v => ?_⟩⟩
  · have hfound : Desk.formatterFor v.type ⟨b, c, some r, names⟩ =
        (.ok (some (r.getRuntime v.type).1), ⟨b, c, some (r.getRuntime v.type).2, names⟩) := rfl
    rw [Formatter.writeValue, Desk.run_bind_ok hfound]
    dsimp only
    rw [dif_pos (Formatter.rank_lt (hkind v.type))]
  · exact (f.coincide_writeValue alarm v _ (hfit b c names)).1
  · exact (f.coincide_write alarm v _ (hfit b c names)).1

/-- A new repository. -/
def drawingRoom : Repository × Catalog :=
  Repository.new "drawing" .object (.new Catalog.shortPaths) {}

/-- The repository after the object type was set dynamic. -/
def dynamicObjects : Repository := (drawingRoom.1.setDynamic drawingRoom.2 .object).2.1

/-- A class that nobody declared. -/
def undeclared : Descriptor := ((Catalog.new Catalog.shortPaths).typeOf (.other "Dog")).1

/-- The factory's answer for the class is dynamic, and the repository puts another one in its
place. -/
theorem dynamic_delegates_object :
    (dynamicObjects.factory.resolve undeclared none runtimeFallback).1.extension.kind = .dynamic ∧
    (dynamicObjects.getRuntime undeclared).1.kind ≠ .dynamic := by
  have hroom : drawingRoom.1.Arises := .new "drawing" .object (.new Catalog.shortPaths) {}
  have harises : dynamicObjects.Arises := hroom.setDynamic drawingRoom.2 .object
  exact ⟨by decide +kernel, (dynamic_delegates harises).1 undeclared⟩

end Repository
end ValueText
