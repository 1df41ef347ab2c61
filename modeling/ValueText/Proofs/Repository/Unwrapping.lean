/-
  ValueText.Proofs.Repository.Unwrapping — optional values are written as what is inside.

  A repository begins with a constructor for the optional types.  As long as nobody
  registers another one, it makes the formatter of every optional type that nothing is
  registered for, and that formatter leaves the value inside to the formatter of the
  type inside.  The value inside is not paired with its own type once more: it comes
  with the descriptor that the optional type was declared with.

      BuildsOptionals   the first constructor of the optional types is still there
      Unobtrusive       constructors that leave the optional types alone, and do not fail

  Main results:

    • `buildsOptionals_reached`      the first constructor stays;
    • `Setting.get_optional`         so an optional type has the formatter that it makes;
    • `Setting.formatAnswer_optional`  an optional value has the text of the value inside.
-/
import ValueText.Proofs.Registry.Precedence
import ValueText.Proofs.Repository.Agreement
import ValueText.Proofs.Repository.Counterparts

namespace ValueText

open Catalog (Known Grows Orderly Regular Later nullableDefinition optionalType)
open Descriptor (objectType)
open Repository (nullableConstructor stamped OptionalsSucceed Found Reliable)

/-! ## §1. The constructors that are registered. -/

namespace Factory

variable {ε σ : Type}

theorem generics_registerInstance [Extension ε] (f : Factory ε σ) (target : Descriptor) (e : ε) :
    (f.step (.registerInstance target e)).1.generics = f.generics := by
  unfold step
  dsimp only
  split
  · next out hok =>
      obtain ⟨f', ns⟩ := out
      obtain ⟨heq, -⟩ := registerInstance_eq_ok hok
      rw [heq]
      rfl
  · rfl

/-- A constructor is added, unless it is refused. -/
theorem generics_registerGeneric [Extension ε] (f : Factory ε σ) (definition : Descriptor)
    (c : Constructor ε) : (f.step (.registerGeneric definition c)).1.generics =
      match f.checkGeneric definition c with
      | .ok () => f.generics.set definition.key ⟨definition, c, f.lastSequence + 1⟩
      | .error _ => f.generics := by
  unfold step
  dsimp only
  split
  · next out hok =>
      obtain ⟨f', ns⟩ := out
      obtain ⟨hcheck, f₁, heq, hvisit⟩ := registerGeneric_eq_ok hok
      have hkept : (visit (offerGeneric definition.key c) (f.withConstructor definition c)
          f.subscribers).2.1.generics = (f.withConstructor definition c).generics :=
        visit_keeps (P := fun f' => f'.generics = (f.withConstructor definition c).generics)
          f.subscribers rfl fun f' hf' x _ =>
            (sameRegistrations_offerGeneric _ c f' x).generics.trans hf'
      rw [hvisit] at hkept
      rw [hcheck, heq]
      exact hkept
  · next err hrefused =>
      unfold registerGeneric at hrefused
      split at hrefused
      · next herr => rw [herr]
      · cases hrefused

end Factory

/-! ## §2. The constructor of the optional types stays. -/

/-- Constructors that leave the optional types alone, and do not fail. -/
def Unobtrusive (definition : Descriptor) (k : Constructor Handle) : Prop :=
  definition.key ≠ nullableDefinition.key ∧ ∀ closed arguments, ∃ h, k.build closed arguments = .ok h

theorem reliable_unobtrusive : Reliable Unobtrusive := fun _ _ h => h.2

namespace Repository

/-- The first constructor of the optional types is still there. -/
def BuildsOptionals (r : Repository) : Prop :=
  ∃ n e, r.factory.generics.get? nullableDefinition.key = some e ∧
    e.constructor = stamped n nullableConstructor

theorem BuildsOptionals.of_generics {r r' : Repository} (h : r.BuildsOptionals)
    (hg : r'.factory.generics = r.factory.generics) : r'.BuildsOptionals := by
  obtain ⟨n, e, he, hc⟩ := h
  exact ⟨n, e, hg ▸ he, hc⟩

theorem buildsOptionals_registerHandle {r : Repository} (h : r.BuildsOptionals)
    (target valueType : Descriptor) (f : Formatter) :
    (r.registerHandle target valueType f).2.BuildsOptionals := by
  refine h.of_generics ?_
  rw [r.registerHandle_eq, factory_follow]
  exact Factory.generics_registerInstance _ _ _

/-- Registering the first constructor puts it there. -/
theorem buildsOptionals_registerGeneric (r : Repository) :
    (r.registerGeneric nullableDefinition nullableConstructor).2.BuildsOptionals := by
  refine ⟨r.registrations, ⟨nullableDefinition, stamped r.registrations nullableConstructor,
    r.factory.lastSequence + 1⟩, ?_, rfl⟩
  rw [r.registerGeneric_eq, factory_follow, Factory.generics_registerGeneric]
  exact (Table.get?_set _ _ _ _).trans (if_pos rfl)

/-- **The first constructor stays** if the others leave the optional types alone. -/
theorem lasting_buildsOptionals :
    Lasting Unobtrusive (fun _ => True) BuildsOptionals where
  pool p h := h.of_generics rfl
  registerHandle valueType f _ h := buildsOptionals_registerHandle h _ valueType f
  registerGeneric {r definition k} hk h := by
    rcases hk with ⟨hother, -⟩ | ⟨rfl, rfl⟩
    · obtain ⟨n, e, he, hc⟩ := h
      refine ⟨n, e, ?_, hc⟩
      rw [r.registerGeneric_eq, factory_follow, Factory.generics_registerGeneric]
      split
      · rw [Table.get?_set, if_neg hother]
        exact he
      · exact he
    · exact buildsOptionals_registerGeneric r
  getRuntime {r d} _ h := by
    unfold Repository.getRuntime
    split
    · exact h
    · refine h.of_generics ?_
      rw [factory_follow]
      exact (r.factory.sameRegistrations_resolve d (some (.runtime d)) runtimeFallback).generics
  get {r c t} _ _ h := by
    unfold Repository.get
    split
    · exact h
    · refine h.of_generics ?_
      rw [factory_follow]
      exact (r.factory.sameRegistrations_resolve (c.typeOf t).1 (some (.static t))
        staticFallback).generics

/-- Every repository begins with it. -/
theorem buildsOptionals_withBuiltins (r : Repository) (c : Catalog) :
    (r.withBuiltins c).1.BuildsOptionals := by
  unfold Repository.withBuiltins
  generalize typedBuiltins.foldl Repository.registering (r, c) = p
  exact buildsOptionals_registerHandle (buildsOptionals_registerGeneric p.1) _ _ _

end Repository

variable {c : Catalog} {roleName : String} {role : HostType} {pool : PoolOptions}
  {names : EnumNames} {s : Setting}

/-- **The first constructor of the optional types is there at every moment of a history.** -/
theorem buildsOptionals_reached (hc : Orderly c)
    (hs : (Setting.new roleName role c pool names).Reaches Unobtrusive s) :
    s.repository.BuildsOptionals := by
  have hnew := Repository.lasting_buildsOptionals.moves_new hc roleName role pool names
  have hbuilds : (Setting.new roleName role c pool names).repository.BuildsOptionals := by
    have h := Repository.buildsOptionals_withBuiltins
      (.blank roleName (c.typeOf role).1 pool) (c.typeOf role).2
    rw [Setting.new_eq]
    generalize Repository.withBuiltins _ _ = p at h ⊢
    exact h
  -- After a reset it is there again, whatever was there before.
  have hreset (r : Repository) (c : Catalog) (hc : Orderly c) :
      Moves (fun _ => True) Repository.BuildsOptionals (r, c) (r.reset c) := by
    have htrivial : Lasting Unobtrusive (fun _ => True) fun _ => True := by
      constructor <;> intros <;> trivial
    have hmoves := htrivial.moves_withBuiltins (r := r.forget) hc
    have h := Repository.buildsOptionals_withBuiltins r.forget c
    have heq : r.reset c = r.forget.withBuiltins c := rfl
    rw [heq]
    generalize Repository.withBuiltins _ _ = p at hmoves h ⊢
    exact ⟨hmoves.orderly, hmoves.grows, fun _ _ => h⟩
  generalize Setting.new roleName role c pool names = s₀ at hs hnew hbuilds
  exact (Repository.lasting_buildsOptionals.reaches hreset hnew.orderly hs).keeps
    (fun _ _ => trivial) hbuilds

/-! ## §3. The formatter of an optional type. -/

namespace Factory

variable {ε σ : Type} {K : Descriptor → Prop} {f : Factory ε σ} {X : Descriptor}

/-- **The constructor for a type without parents is chosen** if no extension is registered for
the type itself: there is only the object type besides. -/
theorem leader?_of_parentless (hK : Descriptor.Family K) (hf : Sound K f) (hu : Unfailing K f)
    (hX : K X) (hno : ∀ p, ¬ Descriptor.Parent p X) (hkey : X.key ≠ objectType.key)
    (hnone : f.instances.get? X.key = none) {g : Descriptor} (hg : X.definition = some g)
    {r : GenericEntry ε} (hr : f.generics.get? g.key = some r) :
    f.leader? X = some ⟨X, true⟩ := by
  have hmem : GenericEntry.candidate r g.key X ∈ f.candidates X :=
    mem_candidates.mpr ⟨X, List.mem_cons_self, .generic hg hr (hu.not_mem_failed hf hX hg)⟩
  have hbest : ∀ t ∈ f.candidates X, t = GenericEntry.candidate r g.key X ∨
      (GenericEntry.candidate r g.key X).claim.MoreSpecific t.claim := by
    intro t ht
    obtain ⟨d, hd, hcandidate⟩ := mem_candidates.mp ht
    rcases Catalog.mem_chain_of_parentless hno hd with rfl | rfl
    · cases hcandidate with
      | «instance» hi => rw [hnone] at hi; cases hi
      | generic hg' hr' =>
          rw [hg] at hg'
          cases hg'
          rw [hr] at hr'
          cases hr'
          exact .inl rfl
    · cases hcandidate with
      | generic hg' => cases hg'
      | @«instance» i hi =>
          -- What is registered for the object type is less specific.
          have htarget := (hf.instance_ _ _ hi).1
          refine .inr (.inr ⟨fun he => hkey (he.trans htarget), ?_⟩)
          have hsuper : objectType ∈ X.supertypes := by
            rcases List.mem_cons.mp hd with he | hd
            · exact absurd (congrArg Descriptor.key he).symm hkey
            · exact hd
          show i.target.isAssignableFrom X = true
          unfold Descriptor.isAssignableFrom
          rw [Bool.or_eq_true, List.any_eq_true]
          exact .inr ⟨objectType, hsuper, decide_eq_true htarget.symm⟩
  rw [leader?_eq, winner?_of_mostSpecific hK hf hX hmem hbest]
  rfl

end Factory

/-- What the first constructor makes for an optional type. -/
theorem attempt_optional (f : Factory Handle Slot) (n : Nat) (content : Descriptor) (t : HostType) :
    ∃ h, f.attempt (stamped n nullableConstructor) (optionalType content t) = .ok h ∧
      h.formatter = .general (.nullable content) := ⟨_, rfl, rfl⟩

variable {Allowed : Descriptor → Constructor Handle → Prop}

/-- **An optional type has the formatter that the first constructor makes**, as long as nothing is
registered for the type itself. -/
theorem Setting.get_optional [DecidableEq Slot] (hc : Orderly c)
    (hs : (Setting.new roleName role c pool names).Reaches Unobtrusive s)
    (hregular : Regular s.catalog) {content : Descriptor} {t : HostType}
    (hd : Known s.catalog (optionalType content t))
    (hnone : s.repository.factory.instances.get? (.host (.option t)) = none) :
    (s.repository.get s.catalog (.option t)).1 = .converting (.general (.nullable content)) := by
  have hsettled := settled_reached reliable_unobtrusive hc hs hregular.later
  have hK := hregular.orderly.family
  have htypeOf : (s.catalog.typeOf (.option t)).1 = optionalType content t := by
    unfold Catalog.typeOf
    rw [show s.catalog.get? (.host (.option t)) = some (optionalType content t) from hd]
  obtain ⟨a, hfound, hgives⟩ := hsettled.get hK hregular.plain (c := s.catalog) (t := .option t)
    (htypeOf ▸ hd) (htypeOf ▸ rfl)
  rw [htypeOf] at hfound
  -- The leader is the first constructor, and the answer is what it makes.
  obtain ⟨n, e, he, hconstructor⟩ := buildsOptionals_reached hc hs
  have hleader := Factory.leader?_of_parentless hK hsettled.sound hsettled.unfailing hd
    (Catalog.not_parent_of_parentless rfl rfl) (fun he => nomatch he) hnone rfl he
  have hsupplied := hfound.inSync.extension _ (hfound.inSync.source.trans hleader)
  obtain ⟨h, hattempt, hformatter⟩ := attempt_optional s.repository.factory n content t
  rw [Factory.supplied?_generic rfl he, hconstructor, hattempt] at hsupplied
  obtain rfl : h = a.extension := Option.some.inj hsupplied
  rw [hgives]
  unfold Handle.forType
  rw [hformatter]

/-! ## §4. Writing an optional value. -/

/-- **The value inside is left to the formatter of the type inside.** -/
theorem Formatter.beside_nullable {d : Desk} {r : Repository} (hr : d.home = some r)
    {inner content : Descriptor} {v : TypedValue} (hcontent : v.type.nullable = some content)
    {t : HostType} (hkey : content.key = .host t) {x : Value} (hx : v.value.unwrap? t = some x) :
    DeskWork.beside ((Formatter.general (.nullable inner)).write (some v)) d =
      DeskWork.beside ((r.getRuntime content).1.formatter.write (some ⟨x, content⟩))
        { d with home := some (r.getRuntime content).2 } := by
  have hfound (b : Builder) : Desk.formatterFor content (d.onto b) =
      (.ok (some (r.getRuntime content).1),
        ({ d with home := some (r.getRuntime content).2 } : Desk).onto b) :=
    Desk.formatterFor_there (d := d.onto b) hr content
  rw [Formatter.write, Formatter.writeValue, hcontent]
  dsimp only
  rw [hkey]
  dsimp only
  split
  · next hnone => rw [hx] at hnone; cases hnone
  · next y hy =>
      rw [hx] at hy
      cases hy
      exact DeskWork.beside_bind hfound

/-- An optional value without anything inside is null. -/
theorem Formatter.beside_nullable_none {d : Desk} {inner content : Descriptor} {v : TypedValue}
    (hcontent : v.type.nullable = some content) {t : HostType} (hkey : content.key = .host t)
    (hx : v.value.unwrap? t = none) :
    DeskWork.beside ((Formatter.general (.nullable inner)).write (some v)) d = Writing.null := by
  rw [Formatter.write, Formatter.writeValue, hcontent]
  dsimp only
  rw [hkey]
  dsimp only
  split
  · rfl
  · next y hy => rw [hx] at hy; cases hy

/-! ## §5. Types that were only mentioned. -/

/-- Appends that are taken back together are made of the builder alone. -/
theorem DeskWork.beside_appends (w w' : Writing Unit) (d : Desk) :
    DeskWork.beside (Desk.atomic do Desk.append w; Desk.append w') d =
      Writing.atomic (w >>= fun _ => w') := by
  funext b
  have hfirst : Desk.append w (d.onto b) = ((w b).1, d.onto (w b).2) := rfl
  have hrun : (w >>= fun _ => w') b = ExceptT.bindCont (fun _ => w') (w b).1 (w b).2 := rfl
  unfold DeskWork.beside Desk.atomic Writing.atomic
  rw [hrun]
  cases hw : w b with
  | mk r after =>
  rw [hw] at hfirst
  cases r with
  | error e => rw [Desk.run_bind_error hfirst]; rfl
  | ok u => rw [Desk.run_bind_ok hfirst]; rfl

/-- Of a type that was only mentioned there is nothing to be looked up, so that a formatter writes
its values alike over two catalogues if it is not written against the type itself. -/
theorem Formatter.beside_mentioned {f : Formatter} (hk : f.kind ≠ .dynamic) {v : TypedValue}
    {before : Catalog} {t' : HostType} (htype : v.type = before.blank t')
    (hi : v.type.isInterface = false) {d e : Desk} (hhome : e.home = d.home)
    (hsome : d.home.isSome = true) (hnames : e.names = d.names)
    (hcast : ∀ t f', f = .direct t f' → d.catalog.cast? v t = none ∧ e.catalog.cast? v t = none) :
    DeskWork.beside (f.write (some v)) e = DeskWork.beside (f.write (some v)) d := by
  have hplain : v.type.isPlainData = false := by
    rw [htype] at hi ⊢
    unfold Catalog.blank at hi ⊢
    dsimp only at hi ⊢
    split
    · next h => rw [if_pos h] at hi; cases hi
    · rfl
  match f, hk, hcast with
  | .direct t f', _, hcast =>
      obtain ⟨hd, he⟩ := hcast t f' rfl
      rw [Formatter.beside_direct, Formatter.beside_direct, hd, he]
  | .general (.custom k writing), _, _ =>
      rw [Formatter.write, Formatter.writeValue]
      rfl
  | .general .fallback, _, _ => rw [beside_fallback hplain, beside_fallback hplain]
  | .general .dynamic, hk, _ => exact absurd rfl hk
  | .general (.nullable inner), _, _ =>
      have hnone : v.type.nullable = none := by rw [htype]; rfl
      rw [Formatter.write, Formatter.writeValue, hnone]
      rfl
  | .general (.enumeration shape), _, _ =>
      rw [Formatter.write, Formatter.writeValue]
      split
      · rfl
      · next n _ =>
          have hnamed (d : Desk) (b : Builder) : Desk.nameOf shape n (d.onto b) =
              (.ok (d.names.nameOf shape n).1,
                ({ d with names := (d.names.nameOf shape n).2 } : Desk).onto b) := rfl
          rw [DeskWork.beside_bind (hnamed d), DeskWork.beside_bind (hnamed e), hnames]
          rfl
  | .general .anonymous, _, _ =>
      -- The record has no properties, and the repository is still there.
      have hproperties : v.type.facts.properties = [] := by rw [htype]; rfl
      have hhomeless (d : Desk) (hd : d.home.isSome = true) (b : Builder) :
          Desk.isHomeless (d.onto b) = (.ok false, d.onto b) := by
        obtain ⟨r, hr⟩ := Option.isSome_iff_exists.mp hd
        unfold Desk.isHomeless Desk.onto
        dsimp only
        rw [hr]
        rfl
      rw [Formatter.write, Formatter.writeValue, hproperties]
      rw [DeskWork.beside_bind (hhomeless d hsome),
        DeskWork.beside_bind (hhomeless e (hhome ▸ hsome))]
      rw [Formatter.writeProperties, if_neg Bool.false_ne_true]
      exact (DeskWork.beside_appends _ _ e).trans (DeskWork.beside_appends _ _ d).symm

/-! ## §6. Texts. -/

/-- The text that a writing makes in a builder. -/
def Writing.answer (w : Writing Unit) (b : Builder) : Except Overflow String :=
  (w b).1.map fun _ => (w b).2.text

/-- In a builder without content there is the word for null, if there is room for it. -/
theorem Writing.answer_null {b : Builder} (hb : b.Bounded) (hempty : b.length = 0)
    (hroom : 4 ≤ b.capacity) : Writing.null.answer b = .ok "null" := by
  have hfit : (CodeUnit.encode "null").length ≤ b.remaining := by
    have hlength : (CodeUnit.encode "null").length = 4 := by decide
    rw [hlength, Builder.remaining]
    omega
  obtain ⟨hok, hlands⟩ := Builder.lands_appendUnits hb hfit
  have hnone : b.units = [] := by
    rw [← List.length_eq_zero_iff, hb.units_length, hempty]
  have htext : (b.appendUnits (CodeUnit.encode "null")).2.text = "null" := by
    rw [Builder.text, hlands.units, hnone]
    decide
  unfold Writing.answer Writing.null Writing.text Writing.append Builder.appendText
  dsimp only
  rw [hok, htext]
  rfl

namespace Repository

/-- A look-up does not change which builder is rented next. -/
theorem rent_get (r : Repository) (c : Catalog) (t : HostType) :
    (r.get c t).2.1.rent.1 = r.rent.1 := by
  unfold Repository.rent
  rw [r.pool_get c t]
  split <;> rfl

/-- If no builder waits in the pool a new one is made. -/
theorem rent_of_idle {r : Repository} (h : r.pool.idle = []) :
    r.rent.1 = .new r.pool.options.builder := by
  unfold Repository.rent Pool.take
  rw [h]

/-- Who rents a builder remembers what it remembered. -/
theorem Alike.rent [DecidableEq Slot] {K : Descriptor → Prop} {r r' : Repository}
    (h : Alike K r r') : Alike K r r'.rent.2 := by
  obtain ⟨p, hp⟩ := r'.rent_pool
  rw [hp]
  exact ⟨h.left, h.right.of_eq rfl rfl rfl rfl, h.same⟩

end Repository

namespace Setting

/-- The desk at which a value is formatted, whatever its builder. -/
theorem formatAnswer_eq_answer (s : Setting) (t : HostType) (v : Option View) :
    s.formatAnswer t v = (DeskWork.beside ((s.repository.get s.catalog t).1.write v)
      ⟨.new {}, (s.repository.get s.catalog t).2.2,
        some (s.repository.get s.catalog t).2.1.rent.2, s.names⟩).answer s.repository.rent.1 := by
  rw [formatAnswer_eq, ← s.repository.rent_get s.catalog t]
  rfl

/-- The optional type was declared, and nothing is registered for it. -/
structure Optional (s : Setting) (t : HostType) : Prop where
  declared : ∃ d content, s.catalog.get? (.host (.option t)) = some d ∧ d.nullable = some content
  unregistered : s.repository.factory.instances.get? (.host (.option t)) = none

/-- The type has values of its own, and its formatter is not one of the host that says that it
leaves values to others.  If the formatter is written against just the type, values of the type
have been seen as themselves. -/
structure Entrusts (s : Setting) (t : HostType) : Prop where
  sized : ∀ d, s.catalog.get? (.host t) = some d → d.isInterface = false
  leaves : (s.repository.get s.catalog t).1.kind = .dynamic →
    (s.repository.get s.catalog t).1 = .converting (.general .dynamic)
  seen : ∀ f, (s.repository.get s.catalog t).1 = .exact f → s.catalog.SeesItself (.host t)

variable {x : Value} {content : Descriptor}

/-- What an optional type was declared with. -/
theorem declared_eq (hc : Orderly s.catalog) {t : HostType} {d : Descriptor}
    (hd : s.catalog.get? (.host (.option t)) = some d) (hn : d.nullable = some content) :
    d = optionalType content t ∧ content.key = .host t ∧ Known s.catalog content ∧
      s.catalog.SeesItself (.host (.option t)) := by
  have hkey := hc.tidy.keyed _ _ hd
  have hknown : Known s.catalog d := by rw [Known, hkey]; exact hd
  obtain ⟨t', rfl, hcontent, hown⟩ := hc.optional_eq hknown hn
  cases hkey
  exact ⟨rfl, hcontent, hc.optional _ _ hknown hn, hown⟩

/-- **What formatting an optional value comes to**, in a repository that is as good as this one. -/
theorem formatAnswer_option [DecidableEq Slot] (hc : Orderly c)
    (hs : (Setting.new roleName role c pool names).Reaches Unobtrusive s)
    (hregular : Regular s.catalog) {t : HostType} {d : Descriptor}
    (hd : s.catalog.get? (.host (.option t)) = some d) (hn : d.nullable = some content)
    (hnone : s.repository.factory.instances.get? (.host (.option t)) = none) :
    (∃ r, (∀ last, Later s.catalog last → Repository.Alike last.Known s.repository r) ∧
      ∀ x, s.formatAnswer (.option t) (some (.plain (.option t (some x)))) =
        (DeskWork.beside ((s.repository.getRuntime content).1.formatter.write (some ⟨x, content⟩))
          ⟨.new {}, s.catalog, some r, s.names⟩).answer s.repository.rent.1) ∧
    s.formatAnswer (.option t) (some (.plain (.option t none))) =
      Writing.null.answer s.repository.rent.1 := by
  obtain ⟨rfl, hkey, hcontent, hown⟩ := declared_eq hregular.orderly hd hn
  have hget := get_optional hc hs hregular hd hnone
  have htypeOf : (s.catalog.typeOf (.option t)).1 = optionalType content t := by
    unfold Catalog.typeOf
    rw [hd]
  -- The value is paired with the optional type, which changes nothing.
  have hpaired (w : Option Value) :
      (s.repository.get s.catalog (.option t)).2.2.runtimeType (.option t w) =
        (optionalType content t, s.catalog) := by
    obtain ⟨hfirst, hsame⟩ := Catalog.runtimeType_of_known (v := .option t w) hd
    exact (s.repository.runtimeType_get s.catalog (.option t w)).trans
      (Prod.ext hfirst (hsame hown rfl))
  have hunwrap (w : Option Value) : (Value.option t w).unwrap? t = w := if_pos rfl
  have halike (last : Catalog) (hlast : Later s.catalog last) :
      Repository.Alike last.Known s.repository
        (s.repository.get s.catalog (.option t)).2.1.rent.2 :=
    ((settled_reached reliable_unobtrusive hc hs hlast).alike_get hlast.regular
      (hlast.grows _ (htypeOf ▸ hd)) (htypeOf ▸ rfl)).rent
  refine ⟨⟨((s.repository.get s.catalog (.option t)).2.1.rent.2.getRuntime content).2,
    fun last hlast => ?_, fun x => ?_⟩, ?_⟩
  · have h := halike last hlast
    exact h.trans (h.right.alike_getRuntime hlast.regular (hlast.grows _ hcontent))
  · have hsame := ((halike _ hregular.later).getRuntime hregular hcontent).1
    rw [formatAnswer_eq_answer, hget, StaticFormatter.beside_converting]
    dsimp only
    rw [hpaired, Formatter.beside_nullable rfl (v := ⟨_, optionalType content t⟩) rfl hkey
      (hunwrap (some x)), hsame]
  · rw [formatAnswer_eq_answer, hget, StaticFormatter.beside_converting]
    dsimp only
    rw [hpaired, Formatter.beside_nullable_none (v := ⟨_, optionalType content t⟩) rfl hkey
      (hunwrap none)]

/-- An optional value is formatted by the formatter for values of the type inside, with what is
known of that type now. -/
theorem formatAnswer_content (hc : Orderly c)
    (hs : (Setting.new roleName role c pool names).Reaches Unobtrusive s)
    (hregular : Regular s.catalog) {t : HostType} (ht : s.Optional t) :
    ∃ r, ∀ x, s.formatAnswer (.option t) (some (.plain (.option t (some x)))) =
      (DeskWork.beside ((s.repository.getRuntime (s.catalog.typeOf t).1).1.formatter.write
        (some ⟨x, (s.catalog.typeOf t).1⟩)) ⟨.new {}, s.catalog, some r, s.names⟩).answer
          s.repository.rent.1 := by
  classical
  obtain ⟨d, content, hd, hn⟩ := ht.declared
  obtain ⟨-, hkey, hknown, -⟩ := declared_eq hregular.orderly hd hn
  obtain ⟨⟨r, -, hsome⟩, -⟩ := formatAnswer_option hc hs hregular hd hn ht.unregistered
  have hcontent : (s.catalog.typeOf t).1 = content := by
    rw [Known, hkey] at hknown
    unfold Catalog.typeOf
    rw [hknown]
  rw [hcontent]
  exact ⟨r, hsome⟩

/-- A formatter for values that is written against their type is found on both ways. -/
theorem exact_of_direct [DecidableEq Slot] (hc : Orderly c)
    (hs : (Setting.new roleName role c pool names).Reaches Unobtrusive s)
    (hregular : Regular s.catalog) {d : Descriptor}
    (hd : (s.catalog.runtimeType x).1 = d) {f : TypedFormatter}
    (hf : (s.repository.getRuntime d).1.formatter = .direct x.type f) :
    (s.repository.get s.catalog x.type).1 = .exact f := by
  have hpaired : s.catalog.runtimeType x = (d, (s.catalog.runtimeType x).2) := Prod.ext hd rfl
  obtain ⟨hlater, -, -⟩ := hregular.paired hpaired
  obtain ⟨⟨a, ha, hstatic⟩, ⟨b, hb, hruntime⟩⟩ :=
    found_reached reliable_unobtrusive hc hs hregular hpaired hlater.regular.later
  rw [hruntime, Repository.runtimeHandle_eq hb.inSync ha.inSync hb.origin ha.origin] at hf
  by_cases hk : a.extension.kind = .dynamic
  · -- Then there is only the fallback for values.
    unfold Repository.runtimeHandle Repository.runtimeFallback at hf
    rw [hk] at hf
    cases hf
  · rw [Repository.runtimeHandle_of_kind hk] at hf
    rw [hstatic]
    unfold Handle.forType
    rw [hf]
    exact if_pos rfl

/-- **The descriptor that an optional type was declared with is good enough**: values of the type
inside are written alike, whether they have been seen as themselves or not. -/
theorem beside_content [DecidableEq Slot] (hc : Orderly c)
    (hs : (Setting.new roleName role c pool names).Reaches Unobtrusive s)
    (hregular : Regular s.catalog) (hx : s.Entrusts x.type)
    (hd : s.catalog.get? (.host x.type) = some content) (r : Repository) :
    DeskWork.beside ((s.repository.getRuntime content).1.formatter.write (some ⟨x, content⟩))
        ⟨.new {}, (s.catalog.runtimeType x).2, some r, s.names⟩ =
      DeskWork.beside ((s.repository.getRuntime content).1.formatter.write (some ⟨x, content⟩))
        ⟨.new {}, s.catalog, some r, s.names⟩ := by
  have hkey := hregular.orderly.tidy.keyed _ _ hd
  have hknown : Known s.catalog content := by rw [Known, hkey]; exact hd
  obtain ⟨hfirst, hsame⟩ := Catalog.runtimeType_of_known hd
  by_cases hown : s.catalog.SeesItself (.host x.type)
  case pos => rw [hsame hown hkey]
  case neg =>
    have hi := hx.sized _ hd
    have hobject : x.type ≠ .object := by
      intro ho
      cases x <;> cases ho
    rw [← hkey] at hown
    obtain ⟨before, t', hblank⟩ := hregular.orderly.mentioned hknown hkey hobject hi hown
    have hno : ∀ p, ¬ Descriptor.Parent p content := by
      rw [hblank]
      exact Catalog.not_parent_of_parentless rfl rfl
    have hkind : (s.repository.getRuntime content).1.formatter.kind ≠ .dynamic := by
      obtain ⟨b, -, hruntime⟩ := (settled_reached reliable_unobtrusive hc hs
        hregular.later).getRuntime hregular.orderly.family hregular.plain hknown
      rw [hruntime]
      exact Repository.kind_runtimeHandle _ _
    refine Formatter.beside_mentioned hkind hblank hi rfl rfl rfl fun t f hf => ?_
    -- A formatter that is written against another type is not applied on either way.
    have hother : content.key ≠ .host t := by
      intro he
      rw [hkey] at he
      cases he
      rw [hkey] at hown
      exact hown (hx.seen f (exact_of_direct hc hs hregular hfirst hf))
    exact ⟨hregular.orderly.cast?_mentioned hknown hi hown hno hregular.orderly (fun _ _ _ h => h)
        hother,
      hregular.orderly.cast?_mentioned hknown hi hown hno (hregular.orderly.runtimeType x).1
        (fun _ _ _ => Catalog.steps_runtimeType) hother⟩

/-- **An optional value has the text of the value inside.**  At every moment of every history of a
repository in which no other constructor is registered for the optional types, and no constructor
fails, an optional value is formatted as the value inside is, whatever formatter that has and
whether its type was declared or not.  Without a value inside the text is the word for null. -/
theorem formatAnswer_optional (hc : Orderly c)
    (hs : (Setting.new roleName role c pool names).Reaches Unobtrusive s)
    (hinterfaces : s.catalog.ImplementsInterfaces) (hoptionals : OptionalsSucceed s.catalog.Known)
    {t : HostType} (ht : s.Optional t) :
    (s.Entrusts t → ∀ x : Value, x.type = t →
      s.formatAnswer (.option t) (some (.plain (.option t (some x)))) =
        s.formatAnswer t (some (.plain x))) ∧
    s.formatAnswer (.option t) (some (.plain (.option t none))) =
      Writing.null.answer s.repository.rent.1 ∧
    (s.repository.rent.1.Bounded → s.repository.rent.1.length = 0 →
      4 ≤ s.repository.rent.1.capacity →
      s.formatAnswer (.option t) (some (.plain (.option t none))) = .ok "null") := by
  classical
  have hregular : Regular s.catalog := ⟨orderly_reached hc hs, hinterfaces, hoptionals⟩
  obtain ⟨d, content, hd, hn⟩ := ht.declared
  obtain ⟨-, hkey, hcontent, -⟩ := declared_eq hregular.orderly hd hn
  obtain ⟨⟨r, hr, hsome⟩, hnull⟩ := formatAnswer_option hc hs hregular hd hn ht.unregistered
  refine ⟨?_, hnull, fun hb hempty hroom => hnull.trans (Writing.answer_null hb hempty hroom)⟩
  rintro hentrusts x rfl
  have hget : s.catalog.get? (.host x.type) = some content := by
    rw [← hkey]
    exact hcontent
  obtain ⟨hfirst, -⟩ := Catalog.runtimeType_of_known hget
  have hpaired : s.catalog.runtimeType x = (content, (s.catalog.runtimeType x).2) :=
    Prod.ext hfirst rfl
  obtain ⟨hlater, hdescribes, htypeOf⟩ := hregular.paired hpaired
  -- The repository that formats the value is as good as the one that formats the optional value.
  have halike (last : Catalog) (hlast : Later (s.catalog.runtimeType x).2 last) :
      Repository.Alike last.Known s.repository
        (s.repository.get s.catalog x.type).2.1.rent.2 :=
    ((settled_reached reliable_unobtrusive hc hs (hlater.trans hlast)).alike_get hlast.regular
      (hlast.grows _ (htypeOf ▸ hdescribes.known)) (htypeOf ▸ hdescribes.key)).rent
  rw [hsome x, formatAnswer_eq_answer, beside_get reliable_unobtrusive hc hs hregular hpaired
    hentrusts.leaves halike fun last hlast => hr last (hlater.trans hlast),
    beside_content hc hs hregular hentrusts hget r]

end Setting

/-! ## §7. Circles that may be missing. -/

/-- The shapes, and the optional type of the class. -/
def optionalShapes : Catalog := (shapes.declareNullable circle.type).2

theorem orderly_optionalShapes : optionalShapes.Orderly := by
  refine .declareNullable circle.type orderly_shapes ?_
  rw [Catalog.Unmentioned]
  decide +kernel

/-- A repository over them, after a formatter was registered. -/
def sketching (t : HostType) (f : TypedFormatter) : Setting :=
  (Setting.new "drawing" .object optionalShapes {} {}).register t f

theorem reaches_sketching (t : HostType) (f : TypedFormatter) :
    (Setting.new "drawing" .object optionalShapes {} {}).Reaches Unobtrusive (sketching t f) :=
  Relation.ReflTransGen.single (.register (.new "drawing" .object optionalShapes {} {}) t f)

/-- What an optional type was declared with can be seen from its entry. -/
theorem optional_of_entry {t : HostType}
    (hd : ((s.catalog.get? (.host (.option t))).bind (·.nullable)).isSome = true)
    (hnone : (s.repository.factory.instances.get? (.host (.option t))).isNone = true) :
    s.Optional t := by
  obtain ⟨content, hcontent⟩ := Option.isSome_iff_exists.mp hd
  obtain ⟨d, hd, hn⟩ := Option.bind_eq_some_iff.mp hcontent
  exact ⟨⟨d, content, hd, hn⟩, Option.isNone_iff_eq_none.mp hnone⟩

/-- A circle that may be missing is drawn as a circle, by the formatter for shapes. -/
theorem formatAnswer_optional_circle :
    (sketching (.other "Shape") marking).catalog.ImplementsInterfaces ∧
    OptionalsSucceed (sketching (.other "Shape") marking).catalog.Known ∧
    (sketching (.other "Shape") marking).Optional circle.type ∧
    (sketching (.other "Shape") marking).Entrusts circle.type ∧
    (sketching (.other "Shape") marking).formatAnswer (.option circle.type)
        (some (.plain (.option circle.type (some circle)))) =
      (sketching (.other "Shape") marking).formatAnswer circle.type (some (.plain circle)) ∧
    (sketching (.other "Shape") marking).formatAnswer (.option circle.type)
      (some (.plain (.option circle.type none))) = .ok "null" := by
  have hinterfaces : (sketching (.other "Shape") marking).catalog.ImplementsInterfaces :=
    Catalog.implementsInterfaces_of_entries (by decide +kernel)
  have hoptionals : OptionalsSucceed (sketching (.other "Shape") marking).catalog.Known :=
    optionalsSucceed_of_entries (by decide +kernel)
  have hoptional : (sketching (.other "Shape") marking).Optional circle.type :=
    optional_of_entry (by decide +kernel) (by decide +kernel)
  have hsized : ((sketching (.other "Shape") marking).catalog.get? (.host circle.type)).all
      (fun d => !d.isInterface) = true := by decide +kernel
  have hentrusts : (sketching (.other "Shape") marking).Entrusts circle.type := by
    refine ⟨fun d hd => ?_, fun hk => ?_, fun f _ => ?_⟩
    · rw [hd] at hsized
      simpa using hsized
    · have hkind : ((sketching (.other "Shape") marking).repository.get
          (sketching (.other "Shape") marking).catalog circle.type).1.kind ≠ .dynamic := by
        decide +kernel
      exact absurd hk hkind
    · unfold Catalog.SeesItself
      decide +kernel
  obtain ⟨hsome, -, hnull⟩ := Setting.formatAnswer_optional orderly_optionalShapes
    (reaches_sketching (.other "Shape") marking) hinterfaces hoptionals hoptional
  -- No builder waits in the pool, so a new one is rented.
  have hrent := Repository.rent_of_idle
    (r := (sketching (.other "Shape") marking).repository) (by decide +kernel)
  have hroom : 4 ≤ (sketching (.other "Shape") marking).repository.pool.options.builder.capacity := by
    decide +kernel
  refine ⟨hinterfaces, hoptionals, hoptional, hentrusts, hsome hentrusts circle rfl, hnull ?_ ?_ ?_⟩
  · rw [hrent]
    exact Builder.bounded_ofRegion _ _
  · rw [hrent]
    rfl
  · rw [hrent, (Builder.fit_new _).capacity]
    exact hroom

/-- **A formatter that says that it leaves its values, and does not, is not used for the value
inside an optional one.** -/
theorem formatAnswer_optional_claiming : ¬ ∀ (c : Catalog) (roleName : String) (role : HostType)
    (pool : PoolOptions) (names : EnumNames) (s : Setting) (t : HostType) (x : Value), Orderly c →
    (Setting.new roleName role c pool names).Reaches Unobtrusive s →
    s.catalog.ImplementsInterfaces → OptionalsSucceed s.catalog.Known → s.Optional t →
    x.type = t → s.formatAnswer (.option t) (some (.plain (.option t (some x)))) =
      s.formatAnswer t (some (.plain x)) := by
  classical
  intro h
  have hinterfaces : (sketching circle.type claiming).catalog.ImplementsInterfaces :=
    Catalog.implementsInterfaces_of_entries (by decide +kernel)
  have hoptionals : OptionalsSucceed (sketching circle.type claiming).catalog.Known :=
    optionalsSucceed_of_entries (by decide +kernel)
  have hoptional : (sketching circle.type claiming).Optional circle.type :=
    optional_of_entry (by decide +kernel) (by decide +kernel)
  have heq := h optionalShapes "drawing" .object {} {} (sketching circle.type claiming) circle.type
    circle orderly_optionalShapes (reaches_sketching circle.type claiming) hinterfaces hoptionals
    hoptional rfl
  have hregular : Regular (sketching circle.type claiming).catalog :=
    ⟨orderly_reached orderly_optionalShapes (reaches_sketching circle.type claiming), hinterfaces,
      hoptionals⟩
  obtain ⟨r, hsome⟩ := Setting.formatAnswer_content orderly_optionalShapes
    (reaches_sketching circle.type claiming) hregular hoptional
  -- For the circle inside there is only the fallback, which writes the full name.
  have hfallback := Formatter.eq_fallback (f := ((sketching circle.type claiming).repository.getRuntime
    ((sketching circle.type claiming).catalog.typeOf circle.type).1).1.formatter) (by decide +kernel)
  have hplain : ((sketching circle.type claiming).catalog.typeOf circle.type).1.isPlainData =
      false := by decide +kernel
  have hmark : ((sketching circle.type claiming).formatAnswer circle.type
      (some (.plain circle))).toOption = some "D" := by decide +kernel
  have hname : (Writing.answer (TypedValue.writePlain ⟨circle,
      ((sketching circle.type claiming).catalog.typeOf circle.type).1⟩)
        (sketching circle.type claiming).repository.rent.1).toOption ≠ some "D" := by decide +kernel
  generalize ((sketching circle.type claiming).catalog.typeOf circle.type).1 = content
    at hsome hfallback hplain hname
  rw [← heq, hsome circle, hfallback, Formatter.beside_fallback hplain] at hmark
  exact hname hmark

/-- The optional type of circles, which are mentioned by it only. -/
def missingCircles : Catalog := ((Catalog.new Catalog.shortPaths).declareNullable circle.type).2

theorem orderly_missingCircles : missingCircles.Orderly := by
  refine .declareNullable circle.type (.new _ _) ?_
  rw [Catalog.Unmentioned]
  decide +kernel

/-- A new repository over it. -/
def blankSheet : Setting := .new "drawing" .object missingCircles {} {}

/-- The repository after a formatter was registered for circles. -/
def doodling : Setting := blankSheet.register circle.type marking

theorem reaches_blankSheet :
    (Setting.new "drawing" .object missingCircles {} {}).Reaches Unobtrusive blankSheet := .refl

theorem reaches_doodling :
    (blankSheet.register circle.type marking).Reaches Unobtrusive doodling := .refl

/-- **The formatter for a type is not applied to the value inside an optional one, if nobody has
seen a value of the type.**  To name the type inside is not to say that its values can be seen as
themselves, so the full name is written in braces. -/
theorem formatAnswer_optional_unseen : ¬ ∀ (c : Catalog) (roleName : String) (role : HostType)
    (pool : PoolOptions) (names : EnumNames) (s : Setting) (t : HostType) (x : Value), Orderly c →
    (Setting.new roleName role c pool names).Reaches Unobtrusive s →
    s.catalog.ImplementsInterfaces → OptionalsSucceed s.catalog.Known → s.Optional t →
    (∀ d, s.catalog.get? (.host t) = some d → d.isInterface = false) →
    (s.repository.get s.catalog t).1.kind ≠ .dynamic →
    x.type = t → s.formatAnswer (.option t) (some (.plain (.option t (some x)))) =
      s.formatAnswer t (some (.plain x)) := by
  intro h
  have hinterfaces : doodling.catalog.ImplementsInterfaces :=
    Catalog.implementsInterfaces_of_entries (by decide +kernel)
  have hoptionals : OptionalsSucceed doodling.catalog.Known :=
    optionalsSucceed_of_entries (by decide +kernel)
  have hoptional : doodling.Optional circle.type :=
    optional_of_entry (by decide +kernel) (by decide +kernel)
  have hsized : (doodling.catalog.get? (.host circle.type)).all (fun d => !d.isInterface) =
      true := by decide +kernel
  have hreaches : (Setting.new "drawing" .object missingCircles {} {}).Reaches Unobtrusive
      doodling := reaches_blankSheet.tail (.register blankSheet circle.type marking)
  have heq := h missingCircles "drawing" .object {} {} doodling circle.type circle
    orderly_missingCircles hreaches hinterfaces hoptionals hoptional
    (fun d hd => by rw [hd] at hsized; simpa using hsized) (by decide +kernel) rfl
  have hregular : Regular doodling.catalog :=
    ⟨orderly_reached orderly_missingCircles hreaches, hinterfaces, hoptionals⟩
  obtain ⟨r, hsome⟩ := Setting.formatAnswer_content orderly_missingCircles hreaches hregular
    hoptional
  -- The formatter for circles is found, but the circle inside is not seen as one.
  have hp : (doodling.repository.getRuntime (doodling.catalog.typeOf circle.type).1).1.provenance =
      .registered blankSheet.repository.registrations := by
    decide +kernel
  obtain ⟨-, hgrows, hknown⟩ := hregular.orderly.tidy.typeOf circle.type
  have hrecords := (records_reached orderly_missingCircles reaches_blankSheet reaches_doodling
    hgrows).2
  have hlater : Orderly (doodling.catalog.typeOf circle.type).2 :=
    .typeOf circle.type hregular.orderly
  have hfound := (selected_getRuntime hlater.family hrecords hknown hp).1
  have hcast : doodling.catalog.cast? ⟨circle, (doodling.catalog.typeOf circle.type).1⟩
      circle.type = none := by decide +kernel
  have hmark : (doodling.formatAnswer circle.type (some (.plain circle))).toOption = some "T" := by
    decide +kernel
  have hname : (Writing.answer (Writing.braced (doodling.catalog.typeOf circle.type).1.fullName)
      doodling.repository.rent.1).toOption ≠ some "T" := by decide +kernel
  rw [← heq, hsome circle, hfound, Formatter.beside_direct] at hmark
  dsimp only at hmark
  rw [hcast] at hmark
  exact hname hmark

end ValueText
