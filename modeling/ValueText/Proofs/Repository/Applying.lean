/-
  ValueText.Proofs.Repository.Applying — a registered formatter that is selected is applied.

  Registrations are numbered, and a handle says which one it comes from.  What comes
  from the registration of a formatter for a type is selected only for types
  that can be assigned to that type, and a value of such a type is seen as that type
  by the links that were declared with the types.  The object type is the exception:
  every type can be assigned to it, but only a link that was declared to it leads there.

  Main results:

    • `selected_getRuntime`, `selected_delivered`  the handle of a registration is the one that
                             was registered, and selected for the types below its target;
    • `write_registered`     what writing a value with such a handle does.
-/
import ValueText.Proofs.Repository.History

namespace ValueText

open Catalog (Known Grows Orderly Describes Reached)
open Descriptor (Family)
open Factory (Origins)

/-! ## §1. Registrations are numbered. -/

namespace Repository

theorem registrations_follow (r : Repository) (f : Factory Handle Slot)
    (ns : List (Notice Handle Slot)) : (r.follow f ns).registrations = r.registrations := by
  refine foldl_accept (fun r n => ?_) ns _
  unfold Repository.accept
  split <;> rfl

theorem registrations_registerHandle (r : Repository) (target valueType : Descriptor)
    (f : Formatter) :
    (r.registerHandle target valueType f).2.registrations = r.registrations + 1 := by
  unfold Repository.registerHandle
  dsimp only
  split
  · rfl
  · exact registrations_follow _ _ _

theorem registrations_registerGeneric (r : Repository) (definition : Descriptor)
    (k : Constructor Handle) :
    (r.registerGeneric definition k).2.registrations = r.registrations + 1 := by
  unfold Repository.registerGeneric
  dsimp only
  split
  · rfl
  · exact registrations_follow _ _ _

theorem registrations_getRuntime (r : Repository) (d : Descriptor) :
    (r.getRuntime d).2.registrations = r.registrations := by
  unfold Repository.getRuntime
  split
  · rfl
  · exact registrations_follow _ _ _

theorem registrations_get (r : Repository) (c : Catalog) (t : HostType) :
    (r.get c t).2.1.registrations = r.registrations := by
  unfold Repository.get
  split
  · rfl
  · exact registrations_follow _ _ _

end Repository

/-! ## §2. The handle of a registration. -/

/-- What is known of the registration with the number `n` if it is the one of `f` for `T`. -/
def registrationOf (K : Descriptor → Prop) (n : Nat) (T : HostType) (f : TypedFormatter) :
    Origins Handle Slot where
  registered target h :=
    h.provenance = .registered n → target.key = .host T ∧ h.formatter = .direct T f
  made h := h.provenance ≠ .registered n
  fallback _ h := h.provenance ≠ .registered n
  subscribes := Slot.Asks K

variable {K : Descriptor → Prop} {n : Nat} {T : HostType} {f : TypedFormatter} {r r' : Repository}
  {Allowed : Descriptor → Constructor Handle → Prop}

theorem provenance_runtimeFallback (d : Descriptor) :
    (Repository.runtimeFallback d).provenance ≠ .registered n := nofun

theorem provenance_staticFallback (d : Descriptor) :
    (Repository.staticFallback d).provenance ≠ .registered n := by
  unfold Repository.staticFallback
  split <;> exact nofun

namespace Repository.Records

theorem registerHandle (h : r.Records (registrationOf K n T f)) {target : Descriptor}
    (valueType : Descriptor) (g : Formatter)
    (hn : n = r.registrations → target.key = .host T ∧ g = .direct T f) :
    (r.registerHandle target valueType g).2.Records (registrationOf K n T f) := by
  refine h.continues (h.1.registerHandle fun hprovenance => hn ?_)
  exact (Provenance.registered.inj hprovenance).symm

theorem registerGeneric (h : r.Records (registrationOf K n T f)) (definition : Descriptor)
    (k : Constructor Handle) :
    (r.registerGeneric definition k).2.Records (registrationOf K n T f) :=
  h.continues (h.1.registerGeneric fun _ _ _ _ => nofun)

theorem getRuntime (h : r.Records (registrationOf K n T f)) {d : Descriptor} (hd : K d) :
    (r.getRuntime d).2.Records (registrationOf K n T f) :=
  h.continues (h.1.getRuntime ⟨rfl, hd⟩ (provenance_runtimeFallback d)).2

theorem get (h : r.Records (registrationOf K n T f)) {c : Catalog} {t : HostType}
    (hK : K (c.typeOf t).1) (hkey : (c.typeOf t).1.key = .host t) :
    (r.get c t).2.1.Records (registrationOf K n T f) :=
  h.continues (h.1.get ⟨hkey, hK⟩ (provenance_staticFallback _)).2

end Repository.Records

/-- Before the registration there is nothing of it. -/
theorem kept_before (Allowed : Descriptor → Constructor Handle → Prop) (K : Descriptor → Prop)
    (n : Nat) (T : HostType) (f : TypedFormatter) :
    Kept Allowed K fun r => r.registrations ≤ n → r.Records (registrationOf K n T f) where
  pool p h hn := ⟨(h hn).1.of_eq rfl rfl rfl, (h hn).2⟩
  forget h hn := (h hn).forget
  registerHandle {r target} valueType g _ h hn := by
    rw [r.registrations_registerHandle] at hn
    exact (h (by omega)).registerHandle valueType g fun he => by omega
  registerGeneric {r definition k} _ h hn := by
    rw [r.registrations_registerGeneric] at hn
    exact (h (by omega)).registerGeneric definition k
  getRuntime {r d} hd h hn := by
    rw [r.registrations_getRuntime] at hn
    exact (h hn).getRuntime hd
  get {r c t} hK hkey h hn := by
    rw [r.registrations_get] at hn
    exact (h hn).get hK hkey

/-- Later registrations have other numbers. -/
theorem kept_after (Allowed : Descriptor → Constructor Handle → Prop) (K : Descriptor → Prop)
    (n : Nat) (T : HostType) (f : TypedFormatter) :
    Kept Allowed K fun r => n < r.registrations ∧ r.Records (registrationOf K n T f) where
  pool p h := ⟨h.1, h.2.1.of_eq rfl rfl rfl, h.2.2⟩
  forget h := ⟨h.1, h.2.forget⟩
  registerHandle {r target} valueType g _ h := by
    rw [r.registrations_registerHandle]
    exact ⟨by omega, h.2.registerHandle valueType g fun he => by omega⟩
  registerGeneric {r definition k} _ h := by
    rw [r.registrations_registerGeneric]
    exact ⟨by omega, h.2.registerGeneric definition k⟩
  getRuntime {r d} hd h := by
    rw [r.registrations_getRuntime]
    exact ⟨h.1, h.2.getRuntime hd⟩
  get {r c t} hK hkey h := by
    rw [r.registrations_get]
    exact ⟨h.1, h.2.get hK hkey⟩

/-- **What is known of the registration once it was made**, whatever comes later. -/
theorem records_reached {c : Catalog} (hc : Orderly c) {roleName : String} {role : HostType}
    {pool : PoolOptions} {names : EnumNames} {s s' : Setting}
    (hbefore : (Setting.new roleName role c pool names).Reaches Allowed s)
    (hafter : (s.register T f).Reaches Allowed s') (hK : ∀ d, Known s'.catalog d → K d) :
    Orderly s'.catalog ∧
      s'.repository.Records (registrationOf K s.repository.registrations T f) := by
  -- Up to the registration, from a repository that nothing was registered in.
  have hB := kept_before Allowed K s.repository.registrations T f
  have hstart := hB.moves_reached hc hbefore
  -- From the registration on.
  have hA := kept_after Allowed K s.repository.registrations T f
  have hregister := hA.moves_register (r := s.repository) hstart.orderly T f
  have hrest := hA.reaches hregister.orderly hafter
  have hgrows := hregister.grows.trans hrest.grows
  have hrecords := hstart.keeps (fun d hd => hK d (hgrows d hd))
    (fun _ => Repository.records_blank _ _ _) (Nat.le_refl _)
  have hregistered : (s.register T f).repository.Records
      (registrationOf K s.repository.registrations T f) :=
    hrecords.registerHandle (s.catalog.typeOf T).1 (.direct T f) fun _ =>
      ⟨hstart.orderly.tidy.key_typeOf T, rfl⟩
  have hcount : (s.register T f).repository.registrations = s.repository.registrations + 1 :=
    s.repository.registrations_registerHandle _ _ _
  have hleft := hrest.keeps hK ⟨by rw [hcount]; exact Nat.lt_succ_self _, hregistered⟩
  exact ⟨hrest.orderly, hleft.2⟩

theorem mem_chain_of_answer {d : Descriptor} {answer : Resolved Handle}
    (h : (registrationOf K n T f).Answer d answer)
    (hp : answer.extension.provenance = .registered n) :
    answer.extension.formatter = .direct T f ∧ ∃ x ∈ d.chain, x.key = .host T := by
  cases h with
  | @registered target e hregistered ha =>
      obtain ⟨hkey, hformatter⟩ := hregistered hp
      refine ⟨hformatter, ?_⟩
      unfold Descriptor.isAssignableFrom at ha
      rw [Bool.or_eq_true, decide_eq_true_eq, List.any_eq_true] at ha
      rcases ha with hself | ⟨x, hx, hsame⟩
      · exact ⟨d, List.mem_cons_self, hself.symm.trans hkey⟩
      · exact ⟨x, List.mem_cons_of_mem _ hx, (of_decide_eq_true hsame).trans hkey⟩
  | made h => exact absurd hp h
  | fallback h => exact absurd hp h

/-- **The handle for values of a type**, if it is the one of the registration. -/
theorem selected_getRuntime (hK : Family K) (h : r.Records (registrationOf K n T f))
    {d : Descriptor} (hd : K d) (hp : (r.getRuntime d).1.provenance = .registered n) :
    (r.getRuntime d).1.formatter = .direct T f ∧ ∃ x ∈ d.chain, x.key = .host T := by
  obtain ⟨⟨d', X, answer, hkey, ⟨rfl, hd'⟩, hanswer, hgives⟩, -⟩ :=
    h.1.getRuntime (d := d) ⟨rfl, hd⟩ (provenance_runtimeFallback d)
  obtain rfl := hK.unique X d hd' hd hkey
  rw [hgives] at hp ⊢
  -- A dynamic formatter is replaced, and what it is replaced with was not registered.
  unfold Repository.runtimeHandle at hp ⊢
  split at hp
  · exact absurd hp (provenance_runtimeFallback _)
  · exact mem_chain_of_answer hanswer hp
  · exact mem_chain_of_answer hanswer hp

/-- **An answer for a host type**, if it is the one of the registration. -/
theorem selected_delivered (hK : Family K) (h : r.Records (registrationOf K n T f))
    {d : Descriptor} (hd : K d) {t : HostType} (hkey : d.key = .host t) {answer : Resolved Handle}
    (hdelivered : Notice.delivered (.static t) answer ∈ r.notices)
    (hp : answer.extension.provenance = .registered n) :
    answer.extension.formatter = .direct T f ∧ ∃ x ∈ d.chain, x.key = .host T := by
  obtain ⟨X, ⟨hX, hknown⟩, hanswer⟩ := h.2 _ _ hdelivered
  obtain rfl := hK.unique X d hknown hd (hX.trans hkey.symm)
  exact mem_chain_of_answer hanswer hp

/-! ## §3. Writing with the formatter of a registration. -/

namespace Catalog

theorem typeOf_typeOf (c : Catalog) (t : HostType) : (c.typeOf t).2.typeOf t = c.typeOf t := by
  cases hget : c.get? (.host t) with
  | some d =>
      have htypeOf : c.typeOf t = (d, c) := by
        unfold Catalog.typeOf
        rw [hget]
      rw [htypeOf, htypeOf]
  | none =>
      have htypeOf : c.typeOf t = (c.blank t, c.insert (c.blank t)) := by
        unfold Catalog.typeOf
        rw [hget]
      have hagain : (c.insert (c.blank t)).get? (.host t) = some (c.blank t) := by
        rw [get?_insert]
        exact if_pos rfl
      rw [htypeOf]
      unfold Catalog.typeOf
      rw [hagain]

theorem describe_typeOf (c : Catalog) (t : HostType) :
    (c.typeOf t).2.describe t = c.describe t := by
  unfold Catalog.describe
  rw [typeOf_typeOf]

theorem runtimeType_typeOf (c : Catalog) (v : Value) :
    (c.typeOf v.type).2.runtimeType v = c.runtimeType v := by
  cases v with
  | text s => exact c.typeOf_typeOf .text
  | _ => exact c.describe_typeOf _

/-- A value's own type is the one that its host type has. -/
theorem runtimeType_fst (c : Catalog) (v : Value) : (c.runtimeType v).1 = (c.typeOf v.type).1 := by
  cases v <;> rfl

end Catalog

theorem Repository.runtimeType_get (r : Repository) (c : Catalog) (v : Value) :
    (r.get c v.type).2.2.runtimeType v = c.runtimeType v := by
  unfold Repository.get
  split
  · rfl
  · exact c.runtimeType_typeOf v

/-- A formatter that is written against a type writes the value as that type, or the full name
of the value's own type in braces. -/
theorem Formatter.beside_direct (T : HostType) (f : TypedFormatter) (v : TypedValue) (d : Desk) :
    DeskWork.beside ((Formatter.direct T f).write (some v)) d =
      match d.catalog.cast? v T with
      | some w => f.writeView w
      | none => Writing.braced v.type.fullName := by
  rw [Formatter.write, Formatter.writeValue]
  have hcast (b : Builder) : Desk.cast? v T (d.onto b) = (.ok (d.catalog.cast? v T), d.onto b) :=
    rfl
  refine (DeskWork.beside_bind hcast).trans ?_
  cases d.catalog.cast? v T <;> rfl

/-- Where the formatter is not written against the host type, values are paired with their own
types first. -/
theorem StaticFormatter.beside_converting (f : Formatter) (v : Value) (d : Desk) :
    DeskWork.beside (StaticFormatter.write (.converting f) (some (.plain v))) d =
      DeskWork.beside (f.write (some ⟨v, (d.catalog.runtimeType v).1⟩))
        { d with catalog := (d.catalog.runtimeType v).2 } := by
  refine DeskWork.beside_bind (x := Desk.typed v) (a := (d.catalog.runtimeType v).1) ?_
  exact fun _ => rfl

/-- The work applies the formatter to the value `v` of type `d`, seen as `T`, if `T` is reached
by the links of the catalogue; it writes the full name of the type in braces if not. -/
structure Applies (c : Catalog) (d : Descriptor) (v : Value) (T : HostType) (f : TypedFormatter)
    (w : Writing Unit) : Prop where
  view : Reached c d (.host T) → ∃ x : View, x.type = T ∧ c.cast? ⟨v, d⟩ T = some x ∧
    w = f.writeView x
  braces : ¬ Reached c d (.host T) → w = Writing.braced d.fullName

theorem applies_direct {c : Catalog} (hc : Orderly c) {d : Descriptor} {v : Value}
    (hd : Describes c d v) {desk : Desk} (hdesk : desk.catalog = c) :
    Applies c d v T f (DeskWork.beside ((Formatter.direct T f).write (some ⟨v, d⟩)) desk) := by
  have hlinked := hc.linked.toLinked
  have hbeside := Formatter.beside_direct T f ⟨v, d⟩ desk
  rw [hdesk] at hbeside
  refine ⟨fun hreached => ?_, fun hno => ?_⟩
  · obtain ⟨x, hx, htype⟩ :=
      Catalog.cast?_of_reached hlinked hc.tidy hd.known hd.own hd.key hreached
    rw [hx] at hbeside
    exact ⟨x, htype, hx, hbeside⟩
  · rw [Catalog.cast?_eq_none hlinked hno] at hbeside
    exact hbeside

/-- **A registered formatter that is selected is applied.**  Let `f` be registered for `T` at
some point of the history of a repository, and let `v` be a value of type `d`, when the history
has come to `s'`.

1. If the formatter for values of `d` is the one of this registration, writing `v` with it is
   writing a view of `v` as `T` with `f`.
2. If the formatter for the host type of `v` is the one of an answer that was delivered for it,
   and the answer is from this registration, the same holds of writing `v` with it.

Both hold for every `T` but the object type.  Values can be seen as that only if some type of
the chain declares a conversion to it.  If none does, the formatter is selected but not
applied, and the full name of `d` is written in braces. -/
theorem write_registered {c : Catalog} (hc : Orderly c) {roleName : String} {role : HostType}
    {pool : PoolOptions} {names : EnumNames} {s s' : Setting}
    (hbefore : (Setting.new roleName role c pool names).Reaches Allowed s)
    (hafter : (s.register T f).Reaches Allowed s') {v : Value} {d : Descriptor} {c' : Catalog}
    (hd : s'.catalog.runtimeType v = (d, c')) :
    ((s'.repository.getRuntime d).1.provenance = .registered s.repository.registrations →
      (T ≠ .object → Reached c' d (.host T)) ∧
      ∀ desk : Desk, desk.catalog = c' → Applies c' d v T f
        (DeskWork.beside ((s'.repository.getRuntime d).1.formatter.write (some ⟨v, d⟩)) desk)) ∧
    (∀ answer : Resolved Handle,
      Notice.delivered (.static v.type) answer ∈
        (s'.repository.get s'.catalog v.type).2.1.notices →
      (s'.repository.get s'.catalog v.type).1 = answer.extension.forType v.type →
      answer.extension.provenance = .registered s.repository.registrations →
      (T ≠ .object → Reached c' d (.host T)) ∧
      ∀ desk : Desk, desk.catalog = (s'.repository.get s'.catalog v.type).2.2 →
        Applies c' d v T f (DeskWork.beside
          ((s'.repository.get s'.catalog v.type).1.write (some (.plain v))) desk)) := by
  obtain ⟨hrecords, horderly, hgrows, hdescribes⟩ :
      s'.repository.Records (registrationOf c'.Known s.repository.registrations T f) ∧
        Orderly c' ∧ Grows s'.catalog c' ∧ Describes c' d v := by
    have hs' := (records_reached (K := fun _ => True) hc hbefore hafter fun _ _ => trivial).1
    obtain ⟨ho, hg, hdescribes⟩ := hs'.runtimeType v
    rw [hd] at ho hg hdescribes
    exact ⟨(records_reached hc hbefore hafter hg).2, ho, hg, hdescribes⟩
  have hfamily := horderly.family
  have hlinked := horderly.linked.toLinked
  -- What is selected is in the chain, and reached if it is not the object type.
  have hreached (hmem : ∃ x ∈ d.chain, x.key = .host T) (hT : T ≠ .object) :
      Reached c' d (.host T) := by
    obtain ⟨x, hx, hkey⟩ := hmem
    rw [← hkey]
    refine Catalog.reached_of_mem hlinked horderly.tidy hdescribes.known hx ?_
    rintro rfl
    exact hT (TypeKey.host.inj hkey).symm
  refine ⟨fun hp => ?runtime, fun answer hdelivered hgives hp => ?static⟩
  case runtime =>
    obtain ⟨hformatter, hmem⟩ := selected_getRuntime hfamily hrecords hdescribes.known hp
    refine ⟨hreached hmem, fun desk hdesk => ?_⟩
    rw [hformatter]
    exact applies_direct horderly hdescribes hdesk
  case static =>
    have htypeOf : (s'.catalog.typeOf v.type).1 = d := by
      rw [← Catalog.runtimeType_fst, hd]
    have hgot := hrecords.get (c := s'.catalog) (t := v.type)
      (by rw [htypeOf]; exact hdescribes.known) (by rw [htypeOf]; exact hdescribes.key)
    obtain ⟨hformatter, hmem⟩ := selected_delivered hfamily hgot hdescribes.known hdescribes.key
      hdelivered hp
    refine ⟨hreached hmem, fun desk hdesk => ?_⟩
    have hpaired : desk.catalog.runtimeType v = (d, c') := by
      rw [hdesk, Repository.runtimeType_get, hd]
    rw [hgives]
    unfold Handle.forType
    rw [hformatter]
    dsimp only
    split
    · next he =>
        -- The formatter is written against just the type of the value.
        subst he
        have hself := Catalog.cast?_self hdescribes.own hdescribes.key
        exact ⟨fun _ => ⟨.plain v, rfl, hself, rfl⟩, fun hno => absurd (.inl hdescribes.key) hno⟩
    · rw [StaticFormatter.beside_converting, hpaired]
      exact applies_direct horderly hdescribes rfl

/-! ## §4. An interface and a class. -/

/-- A catalogue with an interface. -/
def withShape : Catalog :=
  ((Catalog.new Catalog.shortPaths).declareInterface (.other "Shape") []).2

/-- A catalogue with an interface and a class that implements it. -/
def shapes : Catalog := (withShape.declare (.other "Circle") [.implements (.other "Shape")]).2

theorem orderly_shapes : shapes.Orderly := by
  have hshape : withShape.Orderly :=
    .declareInterface (.other "Shape") [] (.new _ _) nofun (by
      rw [Catalog.Unmentioned]
      decide +kernel)
  unfold shapes
  apply Orderly.declare _ _ hshape
  rw [Catalog.Unmentioned]
  decide +kernel

/-- A repository over the shapes. -/
def drawing : Setting := .new "drawing" .object shapes {} {}

/-- A formatter that writes a mark for every value. -/
def marking : TypedFormatter := .custom .normal fun _ => .texts ["T"]

theorem writeView_marking (x : View) : marking.writeView x = Writing.texts ["T"] :=
  HostWriting.run_texts ["T"]

/-- The repository after the formatter was registered for a type. -/
def marked (T : HostType) : Setting := drawing.register T marking

theorem reaches_drawing :
    (Setting.new "drawing" .object shapes {} {}).Reaches (fun _ _ => False) drawing := .refl

theorem reaches_marked (T : HostType) :
    (drawing.register T marking).Reaches (fun _ _ => False) (marked T) := .refl

/-- An object of the class. -/
def circle : Value := .object "Circle" "" none .complete []

/-- The class, and the catalogue after an object was met. -/
def paired (T : HostType) : Descriptor × Catalog := (marked T).catalog.runtimeType circle

theorem runtimeType_marked (T : HostType) :
    (marked T).catalog.runtimeType circle = paired T := by rw [paired]

/-- A desk whose repository is gone. -/
def bareDesk (c : Catalog) : Desk := ⟨.new {}, c, none, {}⟩

theorem catalog_bareDesk (c : Catalog) : (bareDesk c).catalog = c := rfl

theorem write_registered_circle :
    ((marked (.other "Shape")).repository.getRuntime (paired (.other "Shape")).1).1.provenance =
      .registered drawing.repository.registrations ∧
    Reached (paired (.other "Shape")).2 (paired (.other "Shape")).1 (.host (.other "Shape")) ∧
    Applies (paired (.other "Shape")).2 (paired (.other "Shape")).1 circle (.other "Shape") marking
      (DeskWork.beside
        (((marked (.other "Shape")).repository.getRuntime
          (paired (.other "Shape")).1).1.formatter.write
            (some ⟨circle, (paired (.other "Shape")).1⟩))
        (bareDesk (paired (.other "Shape")).2)) := by
  have hp : ((marked (.other "Shape")).repository.getRuntime
      (paired (.other "Shape")).1).1.provenance = .registered drawing.repository.registrations := by
    decide +kernel
  obtain ⟨hruntime, -⟩ := write_registered orderly_shapes reaches_drawing
    (reaches_marked (.other "Shape")) (v := circle) (Prod.eta (paired (.other "Shape"))).symm
  obtain ⟨hreached, happlies⟩ := hruntime hp
  exact ⟨hp, hreached (by decide), happlies _ (catalog_bareDesk _)⟩

/-- **The formatter of the object type is selected but not applied.**  Every type can be
assigned to the object type, yet no declared conversion leads from the class to it. -/
theorem object_not_applied : ¬ ∀ (c : Catalog) (roleName : String) (role : HostType)
    (pool : PoolOptions) (names : EnumNames) (s s' : Setting) (T : HostType) (f : TypedFormatter)
    (v : Value) (d : Descriptor) (c' : Catalog), Orderly c →
    (Setting.new roleName role c pool names).Reaches (fun _ _ => False) s →
    (s.register T f).Reaches (fun _ _ => False) s' → s'.catalog.runtimeType v = (d, c') →
    (s'.repository.getRuntime d).1.provenance = .registered s.repository.registrations →
    ∃ x : View, x.type = T ∧ ∀ desk : Desk, desk.catalog = c' →
      DeskWork.beside ((s'.repository.getRuntime d).1.formatter.write (some ⟨v, d⟩)) desk =
        f.writeView x := by
  intro h
  have hp : ((marked .object).repository.getRuntime (paired .object).1).1.provenance =
      .registered drawing.repository.registrations := by decide +kernel
  obtain ⟨x, -, hx⟩ := h shapes "drawing" .object {} {} drawing (marked .object) .object marking
    circle (paired .object).1 (paired .object).2 orderly_shapes .refl .refl
    (Prod.eta (paired .object)).symm hp
  have hrun := hx (bareDesk (paired .object).2) (catalog_bareDesk _)
  -- The handle is the registered one, but the value cannot be seen as the object type.
  have horderly := (records_reached (K := fun _ => True) orderly_shapes reaches_drawing
    (reaches_marked .object) fun _ _ => trivial).1
  have hpaired := horderly.runtimeType circle
  rw [runtimeType_marked] at hpaired
  obtain ⟨hlater, hgrows, hdescribes⟩ := hpaired
  have hrecords := (records_reached orderly_shapes reaches_drawing (reaches_marked .object)
    hgrows).2
  have hformatter := (selected_getRuntime hlater.family hrecords hdescribes.known hp).1
  have hcast : (paired .object).2.cast? ⟨circle, (paired .object).1⟩ .object = none := by
    decide +kernel
  rw [hformatter, Formatter.beside_direct, catalog_bareDesk, hcast, writeView_marking] at hrun
  dsimp only at hrun
  have hunits := congrArg (fun w : Writing Unit => (w (.new {})).2.units) hrun
  have hother : ((Writing.braced (paired .object).1.fullName) (.new {})).2.units ≠
      ((Writing.texts ["T"]) (.new {})).2.units := by decide +kernel
  exact hother hunits

end ValueText
