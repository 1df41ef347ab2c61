/-
  ValueText.Proofs.Repository.Counterparts — two repositories that answer alike.

  Of two repositories over one catalogue, one has tried registrations before that it
  has forgotten.  So its numbers are greater, and a builder may wait in its pool that the
  other one has yet to make.  If nothing is pending in that builder, nothing else is
  different, and nothing that a repository does looks at these differences: it answers as
  its counterpart does, up to the numbers of registrations, and the two stay counterparts.

      Terms          what the two have in common, and how far their numbers are apart
      Counterparts   the two repositories
      Hold           the two repositories, over one catalogue that knows their role

  Main results:

    • `Counterparts.registerHandle`, `registerGeneric`, `getRuntime`, `Terms.Hold.get`,
      `Terms.Hold.reset`, …  one operation each;
    • `Desk.counterpartRules`  writing with any formatter does the same at both;
    • `Terms.Hold.format`      both make the same text of a value.
-/
import ValueText.Proofs.Registry.Renumbering
import ValueText.Proofs.Repository.Pools
import ValueText.Proofs.Repository.Settled
import ValueText.Proofs.Types.Origins

namespace ValueText

open Builder (Fit Parallel)
open Factory (Renumbered)

/-! ## §1. Handles with other numbers. -/

/-- The provenance after `n` more registrations. -/
def Provenance.shift (n : Nat) : Provenance → Provenance
  | .registered i => .registered (i + n)
  | .constructed i closed => .constructed (i + n) closed
  | .fallback key => .fallback key

/-- The same handle after `n` more registrations. -/
def Handle.shift (n : Nat) (h : Handle) : Handle := { h with provenance := h.provenance.shift n }

namespace Repository

theorem shift_runtimeFallback (n : Nat) (d : Descriptor) :
    (runtimeFallback d).shift n = runtimeFallback d := rfl

theorem shift_staticFallback (n : Nat) (d : Descriptor) :
    (staticFallback d).shift n = staticFallback d := by
  unfold staticFallback
  split <;> rfl

theorem runtimeHandle_shift (n : Nat) (d : Descriptor) (h : Handle) :
    runtimeHandle d (h.shift n) = (runtimeHandle d h).shift n := by
  have hkind : (h.shift n).kind = h.kind := rfl
  unfold runtimeHandle
  rw [hkind]
  split <;> rfl

/-! ## §2. Counterparts. -/

/-- What two repositories have in common, and how far their numbers are apart. -/
structure Terms where
  roleName : String
  roleType : HostType
  role : Descriptor
  pool : PoolOptions
  /-- How many registrations more one of them has tried. -/
  registrations : Nat
  /-- How many registrations more its factory has counted. -/
  sequence : Nat

/-- How far the factories are apart. -/
def Terms.renumbering (T : Terms) : Renumbering Handle :=
  ⟨some T.role, T.sequence, Handle.shift T.registrations, fun _ => rfl⟩

/-- The repository was made on these terms, and writes one text after another, so there is one
builder at most in its pool. -/
structure Proper (T : Terms) (r : Repository) : Prop where
  roleName : r.roleName = T.roleName
  sound : r.pool.Sound T.pool
  whole : ∀ b ∈ r.pool.idle, b.Whole
  few : r.pool.idle.length ≤ 1

/-- The second repository differs from the first one in its numbers, in the builder that may wait
in its pool and in what it has done. -/
structure Counterparts (T : Terms) (r r' : Repository) : Prop where
  left : r.Proper T
  right : r'.Proper T
  pending : r'.pool.pending? = r.pool.pending?
  factory : Renumbered T.renumbering r.factory r'.factory
  statics : r'.statics = r.statics
  runtime : r'.runtime = r.runtime.map (Handle.shift T.registrations)
  registrations : r'.registrations = r.registrations + T.registrations

/-- The repositories are counterparts over one catalogue, which knows their role. -/
structure Terms.Hold (T : Terms) (p p' : Repository × Catalog) : Prop where
  repositories : Counterparts T p.1 p'.1
  catalog : p'.2 = p.2
  role : p.2.get? (.host T.roleType) = some T.role

variable {T : Terms} {r r' : Repository}

theorem Proper.of_eq (h : r.Proper T) (hname : r'.roleName = r.roleName)
    (hpool : r'.pool = r.pool) : r'.Proper T :=
  ⟨hname.trans h.roleName, hpool ▸ h.sound, hpool ▸ h.whole, hpool ▸ h.few⟩

theorem roleName_accept (r : Repository) (n : Notice Handle Slot) :
    (r.accept n).roleName = r.roleName := by
  unfold accept
  split <;> rfl

theorem Proper.accept (h : r.Proper T) (n : Notice Handle Slot) : (r.accept n).Proper T :=
  h.of_eq (roleName_accept r n) (pool_accept r n)

/-- Nothing that is remembered depends on reports of failures. -/
theorem foldl_accept_heard (ns : List (Notice Handle Slot)) : ∀ r : Repository,
    (ns.filter (·.isHeard)).foldl Repository.accept r = ns.foldl Repository.accept r := by
  induction ns with
  | nil => exact fun r => rfl
  | cons n rest ih =>
      intro r
      cases n with
      | failed e => exact ih r
      | built label closed arguments => exact ih _
      | fellBack d => exact ih _
      | delivered s answer => exact ih _

namespace Counterparts

/-- What is delivered to both is remembered by both. -/
theorem accept (h : Counterparts T r r') (n : Notice Handle Slot) :
    Counterparts T (r.accept n) (r'.accept (T.renumbering.notice n)) := by
  have hleft := h.left.accept n
  have hright := h.right.accept (T.renumbering.notice n)
  have hpending : (r'.accept (T.renumbering.notice n)).pool.pending? =
      (r.accept n).pool.pending? := by rw [pool_accept, pool_accept, h.pending]
  cases n with
  | delivered s answer =>
      cases s with
      | static t =>
          refine ⟨hleft, hright, hpending, h.factory, ?_, h.runtime, h.registrations⟩
          show r'.statics.set t _ = r.statics.set t _
          rw [h.statics]
          rfl
      | runtime d =>
          refine ⟨hleft, hright, hpending, h.factory, h.statics, ?_, h.registrations⟩
          show r'.runtime.set d.key (runtimeHandle d (answer.extension.shift T.registrations)) =
            (r.runtime.set d.key (runtimeHandle d answer.extension)).map _
          rw [h.runtime, runtimeHandle_shift, Table.set_map]
  | built label closed arguments => exact h
  | failed e => exact h
  | fellBack d => exact h

theorem follow (h : Counterparts T r r') {f f' : Factory Handle Slot}
    {ns ns' : List (Notice Handle Slot)} (hf : Renumbered T.renumbering f f')
    (hns : T.renumbering.Heard ns ns') : Counterparts T (r.follow f ns) (r'.follow f' ns') := by
  have hfold (ms : List (Notice Handle Slot)) : ∀ {r r' : Repository}, Counterparts T r r' →
      Counterparts T (ms.foldl Repository.accept r)
        ((ms.map T.renumbering.notice).foldl Repository.accept r') := by
    induction ms with
    | nil => exact fun h => h
    | cons n rest ih => exact fun h => ih (h.accept n)
  unfold Repository.follow
  rw [← foldl_accept_heard ns, ← foldl_accept_heard ns', hns]
  exact hfold _ ⟨h.left.of_eq rfl rfl, h.right.of_eq rfl rfl, h.pending, hf, h.statics, h.runtime,
    h.registrations⟩

/-! ## §3. Registrations. -/

/-- One more registration was tried with both. -/
theorem counted (h : Counterparts T r r') :
    Counterparts T { r with registrations := r.registrations + 1 }
      { r' with registrations := r'.registrations + 1 } := by
  refine ⟨h.left.of_eq rfl rfl, h.right.of_eq rfl rfl, h.pending, h.factory, h.statics,
    h.runtime, ?_⟩
  show r'.registrations + 1 = r.registrations + 1 + T.registrations
  rw [h.registrations]
  omega

/-- **Both accept or refuse a handle.** -/
theorem registerHandle (h : Counterparts T r r') (target valueType : Descriptor) (f : Formatter) :
    (r'.registerHandle target valueType f).1 = (r.registerHandle target valueType f).1 ∧
      Counterparts T (r.registerHandle target valueType f).2
        (r'.registerHandle target valueType f).2 := by
  have hhandle : (⟨.registered r'.registrations, valueType, f⟩ : Handle) =
      T.renumbering.mark ⟨.registered r.registrations, valueType, f⟩ := by
    rw [h.registrations]
    rfl
  have hsame := h.factory.registerInstance target ⟨.registered r.registrations, valueType, f⟩
  unfold Repository.registerHandle
  dsimp only
  rw [hhandle]
  generalize r.factory.registerInstance target _ = x at hsame ⊢
  generalize r'.factory.registerInstance target _ = x' at hsame ⊢
  cases hsame with
  | refused e => exact ⟨rfl, h.counted⟩
  | accepted hf hns => exact ⟨rfl, h.counted.follow hf hns⟩

/-- **Both accept or refuse a constructor.** -/
theorem registerGeneric (h : Counterparts T r r') (definition : Descriptor)
    (k : Constructor Handle) :
    (r'.registerGeneric definition k).1 = (r.registerGeneric definition k).1 ∧
      Counterparts T (r.registerGeneric definition k).2 (r'.registerGeneric definition k).2 := by
  -- The constructors mark what they make with numbers that are as far apart.
  have hstamped : stamped r'.registrations k =
      T.renumbering.constructor (stamped r.registrations k) := by
    unfold Renumbering.constructor stamped
    congr 1
    funext closed arguments
    rw [h.registrations]
    dsimp only
    cases k.build closed arguments <;> rfl
  have hsame := h.factory.registerGeneric definition (stamped r.registrations k)
  rw [← hstamped] at hsame
  unfold stamped at hsame
  unfold Repository.registerGeneric
  dsimp only
  generalize r.factory.registerGeneric definition _ = x at hsame ⊢
  generalize r'.factory.registerGeneric definition _ = x' at hsame ⊢
  cases hsame with
  | refused e => exact ⟨rfl, h.counted⟩
  | accepted hf hns => exact ⟨rfl, h.counted.follow hf hns⟩

/-! ## §4. Looking up. -/

/-- **Both find the same formatter for values of a type.** -/
theorem getRuntime (h : Counterparts T r r') (d : Descriptor) :
    (r'.getRuntime d).1 = (r.getRuntime d).1.shift T.registrations ∧
      Counterparts T (r.getRuntime d).2 (r'.getRuntime d).2 := by
  unfold Repository.getRuntime
  rw [h.runtime, Table.get?_map]
  cases r.runtime.get? d.key with
  | some g => exact ⟨rfl, h⟩
  | none =>
      have hstep := h.factory.resolve d (some (.runtime d))
        (shift_runtimeFallback T.registrations)
      refine ⟨?_, h.follow hstep.state hstep.notices⟩
      dsimp only [Option.map_none]
      rw [hstep.answer, ← runtimeHandle_shift]
      rfl

end Counterparts
end Repository

/-! ## §5. Operations over a catalogue. -/

theorem Catalog.get?_runtimeType_of_some {c : Catalog} {k : TypeKey} {d : Descriptor}
    (h : c.get? k = some d) (v : Value) : (c.runtimeType v).2.get? k = some d := by
  cases v <;> exact get?_typeOf_of_some h _

namespace Repository.Terms.Hold

variable {T : Terms} {r r' : Repository} {c : Catalog} {p p' : Repository × Catalog}

/-- **Both find the same formatter for a host type.** -/
theorem get (h : T.Hold (r, c) (r', c)) (t : HostType) :
    (r'.get c t).1 = (r.get c t).1 ∧ T.Hold (r.get c t).2 (r'.get c t).2 := by
  have hr := h.repositories
  unfold Repository.get
  rw [hr.statics]
  cases r.statics.get? t with
  | some f => exact ⟨rfl, h⟩
  | none =>
      have hstep := hr.factory.resolve (c.typeOf t).1 (some (.static t))
        (shift_staticFallback T.registrations)
      refine ⟨?_, hr.follow hstep.state hstep.notices, rfl, Catalog.get?_typeOf_of_some h.role t⟩
      dsimp only
      rw [hstep.answer]
      rfl

/-- A formatter for a host type is registered with both. -/
theorem registerFor (h : T.Hold (r, c) (r', c)) (t : HostType) (f : Formatter) :
    (r'.registerHandle (c.typeOf t).1 (c.typeOf t).1 f).1 =
        (r.registerHandle (c.typeOf t).1 (c.typeOf t).1 f).1 ∧
      T.Hold ((r.registerHandle (c.typeOf t).1 (c.typeOf t).1 f).2, (c.typeOf t).2)
        ((r'.registerHandle (c.typeOf t).1 (c.typeOf t).1 f).2, (c.typeOf t).2) := by
  obtain ⟨hanswer, hafter⟩ := h.repositories.registerHandle (c.typeOf t).1 (c.typeOf t).1 f
  exact ⟨hanswer, hafter, rfl, Catalog.get?_typeOf_of_some h.role t⟩

theorem registering (h : T.Hold p p') (b : HostType × TypedFormatter) :
    T.Hold (Repository.registering p b) (Repository.registering p' b) := by
  obtain ⟨r, c⟩ := p
  obtain ⟨r', c'⟩ := p'
  obtain rfl : c' = c := h.catalog
  exact (h.registerFor b.1 (.direct b.1 b.2)).2

/-- **Both begin with the same formatters**, registered in the same order. -/
theorem withBuiltins (h : T.Hold p p') :
    T.Hold (p.1.withBuiltins p.2) (p'.1.withBuiltins p'.2) := by
  have htyped : ∀ (bs : List (HostType × TypedFormatter)) {p p' : Repository × Catalog},
      T.Hold p p' →
        T.Hold (bs.foldl Repository.registering p) (bs.foldl Repository.registering p') := by
    intro bs
    induction bs with
    | nil => exact fun h => h
    | cons b rest ih => exact fun h => ih (h.registering b)
  have hfirst := htyped typedBuiltins h
  unfold Repository.withBuiltins
  generalize typedBuiltins.foldl Repository.registering (p.1, p.2) = q at hfirst ⊢
  generalize typedBuiltins.foldl Repository.registering (p'.1, p'.2) = q' at hfirst ⊢
  have hgeneric := (hfirst.repositories.registerGeneric Catalog.nullableDefinition
    nullableConstructor).2
  have hsecond : T.Hold
      ((q.1.registerGeneric Catalog.nullableDefinition nullableConstructor).2, q.2)
      ((q'.1.registerGeneric Catalog.nullableDefinition nullableConstructor).2, q'.2) :=
    ⟨hgeneric, hfirst.catalog, hfirst.role⟩
  exact hsecond.registering (.uuid, .uuid)

/-- Both forget what was registered. -/
theorem forget (h : Counterparts T r r') : Counterparts T r.forget r'.forget :=
  ⟨h.left.of_eq rfl rfl, h.right.of_eq rfl rfl, h.pending,
    .clear h.factory.role h.factory.role' h.factory.lastSequence, rfl, rfl, h.registrations⟩

/-- **Both are reset.** -/
theorem reset (h : T.Hold (r, c) (r', c)) : T.Hold (r.reset c) (r'.reset c) := by
  have hforgotten : T.Hold (r.forget, c) (r'.forget, c) := ⟨forget h.repositories, rfl, h.role⟩
  exact hforgotten.withBuiltins

end Repository.Terms.Hold

/-! ## §6. Writing. -/

/-- The repositories of both desks are counterparts, and their builders may be taken for one
another. -/
structure Desk.Counterparts (T : Repository.Terms) (o : BuilderOptions) (g : Gap) (d d' : Desk) :
    Prop where
  builder : Parallel o g d.builder d'.builder
  homes : ∃ r r', d.home = some r ∧ d'.home = some r' ∧ T.Hold (r, d.catalog) (r', d'.catalog)
  names : d'.names = d.names

namespace Desk

variable {T : Repository.Terms} {o : BuilderOptions} {g : Gap} {d d' : Desk}

/-- The works do the same at desks that are counterparts. -/
def Twofold (T : Repository.Terms) (o : BuilderOptions) (g : Gap) (x x' : DeskWork Unit) : Prop :=
  ∀ d d' : Desk, Counterparts T o g d d' →
    (x' d').1 = (x d).1 ∧ Counterparts T o g (x d).2 (x' d').2

/-- The works look something up at desks that are counterparts, and `P` holds of what they
find. -/
def Findings (T : Repository.Terms) (o : BuilderOptions) (g : Gap) {α : Type} (x x' : DeskWork α)
    (P : α → α → Prop) : Prop :=
  ∀ d d' : Desk, Counterparts T o g d d' → ∃ (a a' : α) (e e' : Desk),
    x d = (.ok a, e) ∧ x' d' = (.ok a', e') ∧ Counterparts T o g e e' ∧ P a a'

theorem Counterparts.catalog (h : Counterparts T o g d d') : d'.catalog = d.catalog := by
  obtain ⟨r, r', -, -, hold⟩ := h.homes
  exact hold.catalog

theorem Counterparts.home (h : Counterparts T o g d d') : d'.home.isNone = d.home.isNone := by
  obtain ⟨r, r', hr, hr', -⟩ := h.homes
  rw [hr, hr']
  rfl

theorem Twofold.append {Host : HostWriting → Prop} {w : Writing Unit} (h : Writing.Appends Host w) :
    Twofold T o g (Desk.append w) (Desk.append w) := by
  intro d d' hd
  obtain ⟨hanswer, hafter⟩ := h.parallel hd.builder
  exact ⟨hanswer, hafter, hd.homes, hd.names⟩

theorem Twofold.seq {x x' y y' : DeskWork Unit} (h : Twofold T o g x x')
    (h' : Twofold T o g y y') : Twofold T o g (x >>= fun _ => y) (x' >>= fun _ => y') := by
  intro d d' hd
  obtain ⟨hanswer, hafter⟩ := h d d' hd
  generalize hx : x d = run at hanswer hafter
  generalize hx' : x' d' = run' at hanswer hafter
  obtain ⟨r, e⟩ := run
  obtain ⟨r', e'⟩ := run'
  obtain rfl : r' = r := hanswer
  cases r' with
  | error err =>
      rw [run_bind_error hx, run_bind_error hx']
      exact ⟨rfl, hafter⟩
  | ok u =>
      rw [run_bind_ok hx, run_bind_ok hx']
      exact h' e e' hafter

theorem Twofold.atomic {x x' : DeskWork Unit} (h : Twofold T o g x x') :
    Twofold T o g (Desk.atomic x) (Desk.atomic x') := by
  intro d d' hd
  obtain ⟨hanswer, hafter⟩ := h d d' hd
  refine ⟨hanswer, ?_, hafter.homes, hafter.names⟩
  show Parallel o g (Writing.settle d.builder (Writing.stopped (x d).1) (x d).2.builder)
    (Writing.settle d'.builder (Writing.stopped (x' d').1) (x' d').2.builder)
  rw [hanswer]
  exact hd.builder.settle hafter.builder _

theorem Findings.twofold {α : Type} {x x' : DeskWork α} {P : α → α → Prop}
    {k k' : α → DeskWork Unit} (h : Findings T o g x x' P)
    (hk : ∀ a a', P a a' → Twofold T o g (k a) (k' a')) :
    Twofold T o g (x >>= k) (x' >>= k') := by
  intro d d' hd
  obtain ⟨a, a', e, e', hx, hx', hafter, ha⟩ := h d d' hd
  rw [run_bind_ok hx, run_bind_ok hx']
  exact hk a a' ha e e' hafter

theorem findings_formatterFor (t : Descriptor) :
    Findings T o g (formatterFor t) (formatterFor t)
      (Option.Rel (Handle.Shares (Formatter.Hosts fun _ => True))) := by
  intro d d' hd
  obtain ⟨r, r', hr, hr', hold⟩ := hd.homes
  obtain ⟨hanswer, hafter⟩ := hold.repositories.getRuntime t
  refine ⟨some (r.getRuntime t).1, some (r'.getRuntime t).1,
    { d with home := some (r.getRuntime t).2 }, { d' with home := some (r'.getRuntime t).2 },
    formatterFor_there hr t, formatterFor_there hr' t,
    ⟨hd.builder, ⟨_, _, rfl, rfl, hafter, hold.catalog, hold.role⟩, hd.names⟩,
    .some ⟨?_, Formatter.hosts_true _⟩⟩
  rw [hanswer]
  rfl

theorem findings_typed (v : Value) :
    Findings T o g (typed v) (typed v) fun t t' => t' = t ∧ True := by
  intro d d' hd
  obtain ⟨r, r', hr, hr', hold⟩ := hd.homes
  have hcatalog := hd.catalog
  refine ⟨_, _, _, _, rfl, rfl, ⟨hd.builder, ⟨r, r', hr, hr', hold.repositories, ?_, ?_⟩, hd.names⟩,
    ?_, trivial⟩
  · dsimp only
    rw [hcatalog]
  · exact Catalog.get?_runtimeType_of_some hold.role v
  · rw [hcatalog]

/-- **Writing does the same at desks that are counterparts**, whatever the formatter. -/
theorem counterpartRules (T : Repository.Terms) (o : BuilderOptions) (g : Gap) :
    PairRules (fun _ _ : Unit => True) (Formatter.Hosts fun _ => True) (fun _ _ => True)
      (fun _ x x' P => Findings T o g x x' (P ())) (fun _ => Twofold T o g)
      (fun _ => Twofold T o g) where
  leaf h := .append h.appends
  texts _ ss := .append ((appendsWritings fun _ => True).texts ss)
  series h := h
  seq h h' := h.seq (h' () trivial)
  atomic h := h.atomic
  look h hk := h.twofold fun a a' ha => hk () a a' trivial ha
  lookSeries h hk := h.twofold fun a a' ha => hk () a a' trivial ha
  cast _ v t := fun d d' hd => ⟨_, _, d, d', rfl, rfl, hd, by rw [hd.catalog]⟩
  nameOf _ e n := fun d d' hd => by
    refine ⟨_, _, _, _, rfl, rfl, ⟨hd.builder, hd.homes, ?_⟩, ?_⟩
    · dsimp only
      rw [hd.names]
    · rw [hd.names]
  isHomeless _ := fun d d' hd => ⟨_, _, d, d', rfl, rfl, hd, hd.home⟩
  formatterFor _ := findings_formatterFor _
  typed _ v := findings_typed v
  nullable _ _ := trivial
  knowsLater _ _ := trivial

end Desk

theorem Formatter.twofold_write (f : Formatter) (v : Option TypedValue) {T : Repository.Terms}
    {o : BuilderOptions} {g : Gap} : Desk.Twofold T o g (f.write v) (f.write v) := by
  cases v with
  | none => exact .append (Formatter.appends_writeNull f.hosts_true)
  | some v => exact (Desk.counterpartRules T o g).writeValue () f v f.hosts_true trivial

theorem StaticFormatter.twofold_write (f : StaticFormatter) (v : Option View) {T : Repository.Terms}
    {o : BuilderOptions} {g : Gap} : Desk.Twofold T o g (f.write v) (f.write v) := by
  match f, v with
  | .exact f, v => exact .append (TypedFormatter.appends_write f.hosts_true v)
  | .converting f, none => exact .append (Formatter.appends_writeNull f.hosts_true)
  | .converting f, some v =>
      refine (Desk.findings_typed v.value).twofold fun t t' ht => ?_
      obtain ⟨rfl, -⟩ := ht
      exact f.twofold_write (some ⟨v.value, _⟩)

/-! ## §7. Texts. -/

namespace Repository

variable {T : Terms} {r r' : Repository}

/-- A builder from the pool is as good as new, and no other one is there. -/
theorem Proper.rent (h : r.Proper T) :
    (r.rent.1.Fit T.pool.builder ∧ r.rent.1.length = 0) ∧ r.rent.2.Proper T ∧
      r.rent.2.pool.idle = [] := by
  obtain ⟨hbounded, hready, hpool, hsound⟩ := rent_sound h.sound
  have hidle : r.rent.2.pool.idle = [] := by
    have hfew := h.few
    rw [hpool]
    exact List.eq_nil_of_length_eq_zero (by rw [List.length_tail]; omega)
  have hwhole : r.rent.1.Whole := by
    unfold Repository.rent Pool.take
    split
    · next b p he =>
        split at he
        · cases he
        · next b' rest hidle =>
            cases he
            exact h.whole b (hidle ▸ List.mem_cons_self)
    · exact (Builder.fit_new _).whole
  obtain ⟨p, hp⟩ := r.rent_pool
  have hname : r.rent.2.roleName = T.roleName := by
    rw [hp]
    exact h.roleName
  refine ⟨⟨⟨hready.disposed, hready.capacity, hready.policy, hbounded, hwhole⟩, hready.length⟩,
    ⟨hname, hsound, ?_, ?_⟩, hidle⟩
  · rw [hidle]
    exact nofun
  · rw [hidle]
    exact Nat.zero_le 1

/-- The pools of counterparts do not matter, as long as they are proper and the same is pending in
both. -/
theorem Counterparts.of_pool (h : Counterparts T r r') {s s' : Repository} {p p' : Pool Builder}
    (hs : s = { r with pool := p }) (hs' : s' = { r' with pool := p' }) (hp : s.Proper T)
    (hp' : s'.Proper T) (hpending : s'.pool.pending? = s.pool.pending?) : Counterparts T s s' := by
  subst hs hs'
  exact ⟨hp, hp', hpending, h.factory, h.statics, h.runtime, h.registrations⟩

end Repository

namespace Setting

open Repository (Counterparts)

/-- The repositories of both settings are counterparts over one catalogue. -/
structure Counterparts (T : Repository.Terms) (s s' : Setting) : Prop where
  hold : T.Hold (s.repository, s.catalog) (s'.repository, s'.catalog)
  names : s'.names = s.names

variable {T : Repository.Terms} {s s' : Setting}

/-- The desks at which both format a value. -/
theorem Counterparts.formatting (h : Counterparts T s s') (t : HostType) :
    (s'.repository.get s'.catalog t).1 = (s.repository.get s.catalog t).1 ∧
      ∃ g, Desk.Counterparts T T.pool.builder g (s.formatting t) (s'.formatting t) := by
  obtain ⟨r, c, names⟩ := s
  obtain ⟨r', c', names'⟩ := s'
  obtain rfl : c' = c := h.hold.catalog
  obtain ⟨hanswer, hget⟩ := h.hold.get t
  obtain ⟨⟨hfit, hlength⟩, hrest, hempty⟩ := hget.repositories.left.rent
  obtain ⟨⟨hfit', hlength'⟩, hrest', hempty'⟩ := hget.repositories.right.rent
  obtain ⟨p, hp⟩ := (r.get c' t).2.1.rent_pool
  obtain ⟨p', hp'⟩ := (r'.get c' t).2.1.rent_pool
  have hpending : (r'.get c' t).2.1.rent.1.pending = (r.get c' t).2.1.rent.1.pending := by
    rw [Repository.rent_pending, Repository.rent_pending]
    exact hget.repositories.pending
  obtain ⟨g, hparallel⟩ := hfit.parallel hfit' hlength hlength' hpending
  refine ⟨hanswer, g, hparallel, ⟨_, _, rfl, rfl, ?_, hget.catalog, hget.role⟩, h.names⟩
  refine hget.repositories.of_pool hp hp' hrest hrest' ?_
  rw [Pool.pending?, Pool.pending?, hempty, hempty']

/-- The answer to formatting a value. -/
def formatAnswer (s : Setting) (t : HostType) (v : Option View) : Except Overflow String :=
  (s.repository.format s.catalog s.names t v).answer

theorem formatAnswer_eq (s : Setting) (t : HostType) (v : Option View) :
    s.formatAnswer t v = ((s.repository.get s.catalog t).1.write v (s.formatting t)).1.map
      fun _ => (s.formatted t v).builder.text := rfl

/-- What is in the pool after a value was formatted: the builder, cleared, and nothing else. -/
theorem format_idle (h : s.repository.Proper T) (t : HostType) (v : Option View) :
    (s.format t v).repository.pool.idle =
      if T.pool.limit = 0 then [] else [(s.formatted t v).builder.clear] := by
  have hempty : s.repository.pool.idle.tail = [] := by
    have hfew := h.few
    exact List.eq_nil_of_length_eq_zero (by rw [List.length_tail]; omega)
  rw [format_giveBack h.sound, hempty, List.nil_append]

/-- What is pending in the pool after a value was formatted. -/
theorem pending_format (h : s.repository.Proper T) (t : HostType) (v : Option View) :
    (s.format t v).repository.pool.pending? =
      if T.pool.limit = 0 then none else (s.formatted t v).builder.pending := by
  rw [Pool.pending?, format_idle h]
  split <;> rfl

theorem format_repository {t : HostType} {v : Option View} {r : Repository}
    (hr : (s.formatted t v).home = some r) :
    ∃ p, (s.format t v).repository = { r with pool := p } := by
  rw [s.format_eq, hr]
  exact r.giveBack_pool _

/-- A repository is as proper as before once it has its builder back. -/
theorem proper_format (h : s.repository.Proper T) {t : HostType} {v : Option View} {r : Repository}
    (hr : (s.formatted t v).home = some r) (hleft : r.Proper T)
    (hfit : (s.formatted t v).builder.Fit T.pool.builder) : (s.format t v).repository.Proper T := by
  obtain ⟨p, hp⟩ := format_repository hr
  have hname : (s.format t v).repository.roleName = T.roleName := by
    rw [hp]
    exact hleft.roleName
  refine ⟨hname, format_sound h.sound t v, ?_, ?_⟩
  · rw [format_idle h]
    intro b hb
    split at hb
    · cases hb
    · rw [List.mem_singleton.mp hb]
      exact hfit.clear.whole
  · rw [format_idle h]
    split
    · exact Nat.zero_le 1
    · exact Nat.le_refl 1

/-- **Both make the same text of a value.** -/
theorem Counterparts.format (h : Counterparts T s s') (t : HostType) (v : Option View) :
    s'.formatAnswer t v = s.formatAnswer t v ∧ Counterparts T (s.format t v) (s'.format t v) := by
  obtain ⟨hsame, g, hdesks⟩ := h.formatting t
  obtain ⟨hanswer, hafter⟩ :=
    (s.repository.get s.catalog t).1.twofold_write v (s.formatting t) (s'.formatting t) hdesks
  have hformatted : ((s.repository.get s.catalog t).1.write v (s'.formatting t)).2 =
      s'.formatted t v := by
    rw [formatted, hsame]
  rw [hformatted] at hafter
  change Desk.Counterparts T T.pool.builder g (s.formatted t v) (s'.formatted t v) at hafter
  obtain ⟨r, r', hr, hr', hold⟩ := hafter.homes
  constructor
  · rw [formatAnswer_eq, formatAnswer_eq, hsame, hanswer, hafter.builder.text_eq]
  · -- Both give their builders back, and both pools keep them or both do not.
    obtain ⟨p, hp⟩ := format_repository (s := s) hr
    obtain ⟨p', hp'⟩ := format_repository (s := s') hr'
    have hleft := proper_format h.hold.repositories.left hr hold.repositories.left
      hafter.builder.left
    have hright := proper_format h.hold.repositories.right hr' hold.repositories.right
      hafter.builder.right
    have hpending : (s'.format t v).repository.pool.pending? =
        (s.format t v).repository.pool.pending? := by
      rw [pending_format h.hold.repositories.right, pending_format h.hold.repositories.left,
        hafter.builder.pending]
    exact ⟨⟨hold.repositories.of_pool hp hp' hleft hright hpending, hold.catalog, hold.role⟩,
      hafter.names⟩

/-- **A formatter writes the same to new builders**, whatever repository it is from. -/
theorem Counterparts.write (h : Counterparts T s s') (f : Formatter) (v : Option TypedValue)
    (o : BuilderOptions) :
    (f.write v (s'.desk (.new o))).1 = (f.write v (s.desk (.new o))).1 ∧
      (f.write v (s'.desk (.new o))).2.builder.text =
        (f.write v (s.desk (.new o))).2.builder.text ∧
      Counterparts T (s.after (f.write v (s.desk (.new o))).2)
        (s'.after (f.write v (s'.desk (.new o))).2) := by
  obtain ⟨g, hparallel⟩ := (Builder.fit_new o).parallel (Builder.fit_new o) rfl rfl rfl
  have hdesks : Desk.Counterparts T o g (s.desk (.new o)) (s'.desk (.new o)) :=
    ⟨hparallel, ⟨_, _, rfl, rfl, h.hold⟩, h.names⟩
  obtain ⟨hanswer, hafter⟩ := f.twofold_write v _ _ hdesks
  refine ⟨hanswer, hafter.builder.text_eq, ⟨?_, hafter.names⟩⟩
  obtain ⟨r, r', hr, hr', hold⟩ := hafter.homes
  unfold after
  rw [hr, hr']
  exact hold

end Setting
end ValueText
