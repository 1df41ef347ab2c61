/-
  ValueText.Proofs.Registry.Arguments — what constructors are run with.

  A constructor says how many arguments it takes.  When it is registered, that is compared
  with the definition; when it is run, the arguments come from the closed type, which was
  declared on its own.  The two are tied by the catalogue: what is registered is the only
  definition with its key, and the closed type is an instance of it.

  Main results:

    • `fed_lookup`, `fed_visit`  a constructor is run by the type's own definition, with the
                          arguments of the type;
    • `Proper.step`       all constructors have been compared with their definitions;
    • `arguments_of_run`  a constructor gets the role if it uses it, the arguments of the closed
                          type, and as many in all as it takes unless a declaration named the
                          closed type with another number.

  The last comes with a constructor for pairs that gets a single argument.
-/
import ValueText.Proofs.Registry.Accounting
import ValueText.Proofs.Registry.Holding
import ValueText.Proofs.Types.Instances

namespace ValueText.Factory

variable {ε σ : Type} {f f' : Factory ε σ} {X : Descriptor} {H : Descriptor → Prop} {g : TypeKey}
  {ns ms : List (Notice ε σ)}

/-! ## §1. Runs and their arguments. -/

/-- Each constructor that is run is the one for the definition of a closed type of `H`, and gets the
arguments of this type. -/
def Fed (f : Factory ε σ) (H : Descriptor → Prop) (ns : List (Notice ε σ)) : Prop :=
  ∀ label closed arguments, Notice.built label closed arguments ∈ ns → H closed ∧
    ∃ h r, closed.definition = some h ∧ f.generics.get? h.key = some r ∧
      label = r.constructor.label ∧ arguments = f.argumentsFor r.constructor closed

theorem fed_nil : Fed f H [] := fun _ _ _ => nofun

theorem Fed.append (h : Fed f H ns) (h' : Fed f H ms) : Fed f H (ns ++ ms) := by
  intro label closed arguments hmem
  rcases List.mem_append.mp hmem with hmem | hmem
  · exact h label closed arguments hmem
  · exact h' label closed arguments hmem

theorem SameRegistrations.fed (h : SameRegistrations f f') (hf : Fed f H ns) : Fed f' H ns := by
  intro label closed arguments hmem
  obtain ⟨hclosed, d, r, hd, hr, hlabel, harguments⟩ := hf label closed arguments hmem
  exact ⟨hclosed, d, r, hd, by rw [h.generics]; exact hr, hlabel,
    by rwa [argumentsFor_of_role h.role]⟩

theorem fed_fellBack (f : Factory ε σ) (X : Descriptor) : Fed f H [.fellBack X] := by
  intro label closed arguments hmem
  cases List.mem_singleton.mp hmem

theorem fed_delivered (f : Factory ε σ) (s : σ) (r : Resolved ε) : Fed f H [.delivered s r] := by
  intro label closed arguments hmem
  cases List.mem_singleton.mp hmem

/-- **The constructor that is registered for the definition of a closed type is asked.** -/
theorem fed_obtain {h d : Descriptor} {r : GenericEntry ε} (hd : d.definition = some h)
    (hr : f.generics.get? h.key = some r) (hclosed : H d) :
    Fed f H (f.obtain h.key r.constructor d).2.2 := by
  have hbuilt : H d ∧ ∃ h r', d.definition = some h ∧ f.generics.get? h.key = some r' ∧
      r.constructor.label = r'.constructor.label ∧
      f.argumentsFor r.constructor d = f.argumentsFor r'.constructor d :=
    ⟨hclosed, h, r, hd, hr, rfl, rfl⟩
  have hobtains := f.obtains h.key r.constructor d
  generalize f.obtain h.key r.constructor d = out at hobtains
  intro label closed arguments hmem
  cases hobtains with
  | found => cases hmem
  | made =>
      cases List.mem_singleton.mp hmem
      exact hbuilt
  | failed err =>
      rcases List.mem_cons.mp hmem with he | hmem
      · cases he
        exact hbuilt
      · unfold report at hmem
        split at hmem
        · cases List.mem_singleton.mp hmem
        · cases hmem

/-- **A look-up runs constructors for types of the chain.** -/
theorem fed_lookup (hX : ∀ d ∈ X.chain, H d) (fuel : Nat) : ∀ f : Factory ε σ,
    Fed f H (f.lookup fuel X).2.2 := by
  -- Induction on the fuel; a look-up that starts again has the same registrations.
  induction fuel with
  | zero => exact fun f => fed_nil
  | succ fuel ih =>
      intro f
      unfold lookup
      split
      · exact fed_nil
      · exact fed_nil
      · next claim n g c hw =>
          obtain ⟨hd, -, h, r, hdef, rfl, hr, rfl, -⟩ := toBuild_of_mem (winner?_mem hw) rfl
          have hsame := f.sameRegistrations_obtain h.key r.constructor claim.target
          have hfed := fed_obtain hdef hr (hX _ hd)
          split
          · next e f₁ ns hout => rwa [hout] at hfed
          · next f₁ ns hout =>
              rw [hout] at hsame hfed
              exact hfed.append (hsame.symm.fed (ih f₁))

/-- So does a resolution. -/
theorem fed_resolve (hX : ∀ d ∈ X.chain, H d) (f : Factory ε σ) (s? : Option σ)
    (fallback : Descriptor → ε) : Fed f H (f.resolve X s? fallback).2.2 := by
  have hfed := fed_lookup hX (X.chain.length + 1) f
  unfold resolve find
  generalize f.lookup (X.chain.length + 1) X = out at hfed
  obtain ⟨found, f₁, ns⟩ := out
  cases found with
  | none =>
      have hfell := hfed.append (fed_fellBack f X)
      cases s? with
      | none => exact hfell
      | some s => exact hfell.append (fed_delivered f s _)
  | some r =>
      cases s? with
      | none => exact hfed
      | some s => exact hfed.append (fed_delivered f s _)

/-- An offer runs the constructor for a type of the chain of the subscriber's type. -/
theorem fed_offerGeneric {r : GenericEntry ε} (hr : f.generics.get? g = some r)
    {x : Subscription σ} (hx : ∀ d ∈ x.objectType.chain, H d) :
    Fed f H (offerGeneric g r.constructor f x).2.2 := by
  have hoffered := offered g r.constructor f x
  generalize offerGeneric g r.constructor f x = out at hoffered
  cases hoffered with
  | none => exact fed_nil
  | refused => exact fed_nil
  | failed d hclosed f₁ ns hover hout =>
      obtain ⟨hd, h, hdef, rfl⟩ := closedIn?_mem hclosed
      have hfed := fed_obtain hdef hr (hx d hd)
      rwa [hout] at hfed
  | given d hclosed e f₁ ns hover hout =>
      obtain ⟨hd, h, hdef, rfl⟩ := closedIn?_mem hclosed
      have hfed := fed_obtain hdef hr (hx d hd)
      rw [hout] at hfed
      exact hfed.append (fed_delivered f _ _)

/-- **The visits of a registration run its constructor for types of the subscribers' chains.** -/
theorem fed_visit {r : GenericEntry ε} (xs : List (Subscription σ)) : ∀ {f : Factory ε σ},
    f.generics.get? g = some r → (∀ x ∈ xs, ∀ d ∈ x.objectType.chain, H d) →
    SameRegistrations f (visit (offerGeneric g r.constructor) f xs).2.1 ∧
      Fed f H (visit (offerGeneric g r.constructor) f xs).2.2 := by
  induction xs with
  | nil => exact fun {f} _ _ => ⟨.refl f, fed_nil⟩
  | cons x xs ih =>
      intro f hr hxs
      have hsame := sameRegistrations_offerGeneric g r.constructor f x
      have hfed := fed_offerGeneric hr (hxs x List.mem_cons_self)
      obtain ⟨hrest, hlater⟩ := ih (by rw [hsame.generics]; exact hr)
        fun y hy => hxs y (List.mem_cons_of_mem _ hy)
      exact ⟨hsame.trans hrest, hfed.append (hsame.symm.fed hlater)⟩

/-- The offers of an extension run no constructors. -/
theorem fed_visit_offerVisit (target : Descriptor) (e : ε) (xs : List (Subscription σ)) :
    Fed f H (visit (offerVisit target e) () xs).2.2 := by
  induction xs with
  | nil => exact fed_nil
  | cons x xs ih =>
      have hoffer : Fed f H (offerVisit target e () x).2.2 := by
        unfold offerVisit offerInstance
        dsimp only
        split
        · exact fed_delivered f _ _
        · exact fed_nil
      exact hoffer.append ih

/-! ## §2. What is registered. -/

/-- What a check of a constructor that is not refused has found. -/
theorem checkGeneric_eq_ok {definition : Descriptor} {c : Constructor ε}
    (h : f.checkGeneric definition c = .ok ()) : definition.isGenericDefinition = true ∧
      c.arity = definition.facts.arity + (if c.usesRole then 1 else 0) ∧
      (c.usesRole = true → f.role ≠ none) := by
  unfold checkGeneric at h
  cases hgeneric : definition.isGenericDefinition with
  | false =>
      rw [hgeneric] at h
      cases h
  | true =>
      rw [hgeneric, if_neg (by decide)] at h
      by_cases hrefused :
          (decide (c.arity ≠ definition.facts.arity + if c.usesRole then 1 else 0) ||
            (c.usesRole && f.role.isNone)) = true
      · rw [if_pos hrefused] at h
        cases h
      · simpa using hrefused

/-- Subscribers ask for types of `H`. -/
def asking (H : Descriptor → Prop) : Origins ε σ :=
  ⟨fun _ _ => True, fun _ => True, fun _ _ => True, fun _ => H⟩

/-- Constructors are registered under the keys of definitions of `H`, and have been compared with
them; subscribers ask for types of `H`. -/
structure Proper (H : Descriptor → Prop) (f : Factory ε σ) : Prop where
  definitions : ∀ k r, f.generics.get? k = some r → r.definition.key = k ∧ H r.definition
  checked : ∀ k r, f.generics.get? k = some r → f.checkGeneric r.definition r.constructor = .ok ()
  asked : (asking H).Holds f

/-- A request is for a definition or a type of `H`. -/
def Request.Uses (H : Descriptor → Prop) : Request ε σ → Prop
  | .registerGeneric definition _ => H definition
  | .resolve X _ _ => H X
  | _ => True

theorem Request.Uses.admits {q : Request ε σ} (hq : q.Uses H) : (asking H).Admits q := by
  cases q with
  | registerInstance => trivial
  | registerGeneric => exact fun _ _ _ _ => trivial
  | clear => trivial
  | resolve => exact ⟨fun _ _ => hq, trivial⟩

theorem proper_new (role : Option Descriptor) (reports : Bool) :
    Proper H (new role reports : Factory ε σ) :=
  ⟨nofun, nofun, Origins.holds_clear (new role reports)⟩

theorem checkGeneric_of_role (h : f'.role = f.role) (definition : Descriptor)
    (c : Constructor ε) : f'.checkGeneric definition c = f.checkGeneric definition c := by
  unfold checkGeneric
  rw [h]

/-- The registrations are all that has been compared. -/
theorem Proper.of_same (h : Proper H f) (hgenerics : f'.generics = f.generics)
    (hrole : f'.role = f.role) (hasked : (asking H).Holds f') : Proper H f' := by
  refine ⟨fun k r hr => ?_, fun k r hr => ?_, hasked⟩
  · rw [hgenerics] at hr
    exact h.definitions k r hr
  · rw [hgenerics] at hr
    rw [checkGeneric_of_role hrole]
    exact h.checked k r hr

variable [Extension ε]

/-- **A request leaves what was compared, and runs only what is registered afterwards.** -/
theorem Proper.step (hH : ∀ Y, H Y → ∀ d ∈ Y.chain, H d) (h : Proper H f) {q : Request ε σ}
    (hq : q.Uses H) : Proper H (f.step q).1 ∧ (f.step q).1.role = f.role ∧
      Fed (f.step q).1 H (f.step q).2 := by
  have hasked := (h.asked.step hq.admits).1
  have hsubscribed : ∀ x ∈ f.subscribers, ∀ d ∈ x.objectType.chain, H d :=
    fun x hx => hH _ (h.asked.subscribed x hx)
  cases q with
  | registerInstance target e =>
      unfold Factory.step at hasked ⊢
      dsimp only at hasked ⊢
      split
      · next out hok =>
          rw [hok] at hasked
          obtain ⟨f', ns⟩ := out
          obtain ⟨heq, hvisit⟩ := registerInstance_eq_ok hok
          have hfed := fed_visit_offerVisit (f := f') (H := H) target e f.subscribers
          rw [hvisit] at hfed
          have hgenerics : f'.generics = f.generics := by
            rw [heq]
            rfl
          have hrole : f'.role = f.role := by
            rw [heq]
            rfl
          exact ⟨h.of_same hgenerics hrole hasked, hrole, hfed⟩
      · exact ⟨h, rfl, fed_nil⟩
  | registerGeneric definition c =>
      unfold Factory.step at hasked ⊢
      dsimp only at hasked ⊢
      split
      · next out hok =>
          rw [hok] at hasked
          obtain ⟨f', ns⟩ := out
          obtain ⟨hcheck, f₁, heq, hvisit⟩ := registerGeneric_eq_ok hok
          have hr : (f.withConstructor definition c).generics.get? definition.key =
              some ⟨definition, c, f.lastSequence + 1⟩ := by
            rw [generics_withConstructor, if_pos rfl]
          obtain ⟨hvisited, hfed⟩ := fed_visit f.subscribers hr hsubscribed
          rw [hvisit] at hvisited hfed
          have hsame : SameRegistrations (f.withConstructor definition c) f' := by
            rw [heq]
            exact ⟨hvisited.instances, hvisited.generics, hvisited.role⟩
          refine ⟨⟨fun k r hk => ?_, fun k r hk => ?_, hasked⟩, hsame.role, hsame.fed hfed⟩
          · rw [hsame.generics, generics_withConstructor] at hk
            split at hk
            · next hkey =>
                cases hk
                exact ⟨hkey, hq⟩
            · exact h.definitions k r hk
          · rw [checkGeneric_of_role (f := f) hsame.role]
            rw [hsame.generics, generics_withConstructor] at hk
            split at hk
            · cases hk
              exact hcheck
            · exact h.checked k r hk
      · exact ⟨h, rfl, fed_nil⟩
  | clear =>
      refine ⟨⟨fun k r hk => ?_, fun k r hk => ?_, hasked⟩, rfl, fed_nil⟩
      · cases hk
      · cases hk
  | resolve X s? fallback =>
      have hsame := f.sameRegistrations_resolve X s? fallback
      have hfed := fed_resolve (hH X hq) f s? fallback
      exact ⟨h.of_same hsame.generics hsame.role hasked, hsame.role, hsame.fed hfed⟩

/-- **So it is after a run.** -/
theorem Proper.run (hH : ∀ Y, H Y → ∀ d ∈ Y.chain, H d) (qs : List (Request ε σ)) :
    ∀ {f : Factory ε σ}, Proper H f → (∀ q ∈ qs, q.Uses H) →
      Proper H (f.run qs).1 ∧ (f.run qs).1.role = f.role := by
  induction qs with
  | nil => exact fun h _ => ⟨h, rfl⟩
  | cons q qs ih =>
      intro f h hqs
      obtain ⟨hstep, hrole, -⟩ := h.step hH (hqs q List.mem_cons_self)
      obtain ⟨hrun, hroles⟩ := ih hstep fun q' hq' => hqs q' (List.mem_cons_of_mem _ hq')
      exact ⟨hrun, hroles.trans hrole⟩

/-! ## §3. Every run. -/

/-- **The arguments that a constructor is run with.**  It is the one that is registered for the
definition of the closed type, and the only one with that key.  It gets the role if it uses it, and
there is a role then, and the generic arguments of the closed type.  These are as many in all as it
takes if and only if the closed type has as many arguments as its definition asks for, that is,
unless a declaration named it as an instance with another number of them. -/
theorem arguments_of_run {c : Catalog} {is : List (Descriptor × List Descriptor)}
    (hc : Catalog.Issues is H c) (role : Option Descriptor) (reports : Bool)
    {before : List (Request ε σ)} {q : Request ε σ} (hqs : ∀ q' ∈ q :: before, q'.Uses H)
    {label : Option String} {closed : Descriptor} {arguments : List Descriptor}
    (hbuilt : .built label closed arguments ∈ (((new role reports).run before).1.step q).2) :
    ∃ g r, closed.definition = some g ∧
      (((new role reports).run before).1.step q).1.generics.get? g.key = some r ∧
      r.definition = g ∧ r.constructor.label = label ∧
      (if r.constructor.usesRole then ∃ d, role = some d ∧ arguments = d :: closed.genericArguments
        else arguments = closed.genericArguments) ∧
      (arguments.length = r.constructor.arity ↔
        closed.genericArguments.length = g.facts.arity) ∧
      (arguments.length = r.constructor.arity ↔ (g, closed.genericArguments) ∉ is) := by
  have hstanding := hc.standing
  have hchains : ∀ Y, H Y → ∀ d ∈ Y.chain, H d := fun Y hY d hd => hstanding.mem_chain hY hd
  obtain ⟨hbefore, hroleBefore⟩ := (proper_new role reports).run hchains before
    fun q' hq' => hqs q' (List.mem_cons_of_mem _ hq')
  obtain ⟨hafter, hroleAfter, hfed⟩ := hbefore.step hchains (hqs q List.mem_cons_self)
  generalize ((new role reports).run before).1.step q = out at *
  have hrole : out.1.role = role := hroleAfter.trans hroleBefore
  obtain ⟨hclosed, g, r, hg, hr, rfl, rfl⟩ := hfed label closed arguments hbuilt
  obtain ⟨hkey, hdefinition⟩ := hafter.definitions _ r hr
  obtain ⟨hgeneric, harity, hneeds⟩ := checkGeneric_eq_ok (hafter.checked _ r hr)
  obtain ⟨hissued, hfits⟩ := (hstanding.made closed hclosed).fits g hg
  -- What is registered under the key is the definition itself.
  have hsame : g = r.definition := hstanding.same hissued hdefinition hkey.symm hgeneric
  have hgiven : if r.constructor.usesRole then ∃ d, role = some d ∧
      out.1.argumentsFor r.constructor closed = d :: closed.genericArguments
      else out.1.argumentsFor r.constructor closed = closed.genericArguments := by
    unfold argumentsFor
    rw [hrole]
    rw [hrole] at hneeds
    split
    · next huses =>
        obtain ⟨d, rfl⟩ := Option.ne_none_iff_exists'.mp (hneeds huses)
        exact ⟨d, rfl, rfl⟩
    · rfl
  have hcount : (out.1.argumentsFor r.constructor closed).length = r.constructor.arity ↔
      closed.genericArguments.length = g.facts.arity := by
    rw [harity, hsame]
    by_cases huses : r.constructor.usesRole = true
    · rw [if_pos huses] at hgiven ⊢
      obtain ⟨d, -, hd⟩ := hgiven
      rw [hd, List.length_cons, Nat.add_right_cancel_iff]
    · rw [if_neg huses] at hgiven ⊢
      rw [hgiven, Nat.add_zero]
  refine ⟨g, r, hg, hr, hsame.symm, rfl, hgiven, hcount, hcount.trans ⟨fun hlength hmem => ?_, ?_⟩⟩
  · exact hc.misfits _ hmem hlength
  · exact fun hnamed => hfits.resolve_right hnamed

/-! ## §4. Pairs. -/

section

open Catalog (shortPaths Issues With Predeclared misfits instancesIn Clause.instance?)

/-- The types of the namespace `System`, and a definition of pairs. -/
def pairs : Descriptor × Catalog := (Catalog.new shortPaths).genericDefinition none "Pair" 2

/-- A type of integers. -/
def integer : Descriptor := (pairs.2.typeOf (.int .i32)).1

/-- A pair of integers. -/
def entry : Descriptor × Catalog :=
  pairs.2.declare (.other "Entry") [.instanceOf pairs.1 [integer, integer]]

/-- A pair with a single argument. -/
def single : Descriptor × Catalog :=
  entry.2.declare (.other "Single") [.instanceOf pairs.1 [integer]]

theorem arity_pairs : pairs.1.facts.arity = 2 := by decide +kernel

theorem issues_single : Issues [(pairs.1, [integer])]
    (With (With (With (Predeclared shortPaths .ofObjects) pairs.1) entry.1) single.1) single.2 := by
  have hpairs := Issues.genericDefinition none "Pair" 2 (.new shortPaths .ofObjects)
  have hentry := hpairs.declare (.other "Entry") [.instanceOf pairs.1 [integer, integer]]
    fun i hi => by
      cases List.mem_singleton.mp hi
      exact .inl rfl
  have hsingle := hentry.declare (.other "Single") [.instanceOf pairs.1 [integer]] fun i hi => by
    cases List.mem_singleton.mp hi
    exact .inr (.inl rfl)
  have hfit : misfits [.instanceOf pairs.1 [integer, integer]] = [] := by
    simp [misfits, instancesIn, Clause.instance?, arity_pairs]
  have hmisfit : misfits [.instanceOf pairs.1 [integer]] = [(pairs.1, [integer])] := by
    simp [misfits, instancesIn, Clause.instance?, arity_pairs]
  rw [hfit, hmisfit] at hsingle
  exact hsingle

/-- A constructor of labels for pairs is registered, and a type is resolved. -/
def pairing : Request Label Unit :=
  .registerGeneric pairs.1 (.ofArguments (some "pair") 2
    (Label.build "pair" [] fun _ text => ⟨text, none⟩))

theorem uses_single {X : Descriptor} (hX : X = entry.1 ∨ X = single.1) :
    ∀ q ∈ [(.resolve X none Label.fallback : Request Label Unit), pairing],
      q.Uses (With (With (With (Predeclared shortPaths .ofObjects) pairs.1) entry.1) single.1) := by
  intro q hq
  simp only [List.mem_cons, List.not_mem_nil, or_false] at hq
  rcases hq with rfl | rfl
  · rcases hX with rfl | rfl
    · exact .inr (.inl rfl)
    · exact .inl rfl
  · exact .inr (.inr (.inl rfl))

/-- The number of arguments of an instance of pairs that a constructor was run for, and the number
of those that the constructor got. -/
def counts? : Notice Label Unit → Option (Nat × Nat)
  | .built _ closed arguments =>
      if closed.definition.map (·.key) = some pairs.1.key then
        some (closed.genericArguments.length, arguments.length)
      else none
  | _ => none

theorem built_of_counts {ns : List (Notice Label Unit)} {a b : Nat}
    (h : (a, b) ∈ ns.filterMap counts?) : ∃ label closed arguments,
      .built label closed arguments ∈ ns ∧ closed.definition.map (·.key) = some pairs.1.key ∧
      closed.genericArguments.length = a ∧ arguments.length = b := by
  obtain ⟨n, hn, hcounts⟩ := List.mem_filterMap.mp h
  cases n with
  | built label closed arguments =>
      unfold counts? at hcounts
      dsimp only at hcounts
      split at hcounts
      · next hkey =>
          cases hcounts
          exact ⟨label, closed, arguments, hn, hkey, rfl, rfl⟩
      · cases hcounts
  | failed => cases hcounts
  | fellBack => cases hcounts
  | delivered => cases hcounts

/-- A constructor for pairs is run for a pair of integers, and gets what it takes. -/
theorem arguments_of_run_entry : ∃ label closed arguments, .built label closed arguments ∈
      (((new none false).run [pairing]).1.step (.resolve entry.1 none Label.fallback)).2 ∧
    closed.genericArguments.length = 2 ∧ ∃ r : GenericEntry Label,
      (((new none false).run [pairing]).1.step
        (.resolve entry.1 none Label.fallback)).1.generics.get? pairs.1.key = some r ∧
      arguments.length = r.constructor.arity := by
  have hcounts : (((new none false).run [pairing]).1.step
      (.resolve entry.1 none Label.fallback)).2.filterMap counts? = [(2, 2)] := by decide +kernel
  obtain ⟨label, closed, arguments, hbuilt, hkey, hlength, -⟩ :=
    built_of_counts (by rw [hcounts]; exact List.mem_singleton.mpr rfl)
  obtain ⟨g, r, hg, hr, -, -, -, -, hcount⟩ :=
    arguments_of_run issues_single none false (uses_single (.inl rfl)) hbuilt
  refine ⟨label, closed, arguments, hbuilt, hlength, r, ?_, hcount.mpr fun hmem => ?_⟩
  · rw [hg, Option.map_some] at hkey
    rwa [← Option.some.inj hkey]
  · have hsingle := congrArg (·.2.length) (List.mem_singleton.mp hmem)
    rw [hlength] at hsingle
    cases hsingle

/-- **A constructor need not get as many arguments as it takes**: a pair can be declared with a
single argument, and nobody counts. -/
theorem constructor_misfed : ¬ ∀ (is : List (Descriptor × List Descriptor))
    (H : Descriptor → Prop) (c : Catalog) (before : List (Request Label Unit))
    (q : Request Label Unit), Issues is H c → (∀ q' ∈ q :: before, q'.Uses H) →
    ∀ label closed arguments, .built label closed arguments ∈
        (((new none false).run before).1.step q).2 → ∀ g r, closed.definition = some g →
      (((new none false).run before).1.step q).1.generics.get? g.key = some r →
      arguments.length = r.constructor.arity := by
  intro h
  have hcounts : (((new none false).run [pairing]).1.step
      (.resolve single.1 none Label.fallback)).2.filterMap counts? = [(1, 1)] := by decide +kernel
  have harity : ((((new none false).run [pairing]).1.step
      (.resolve single.1 none Label.fallback)).1.generics.get? pairs.1.key).map
        (·.constructor.arity) = some 2 := by decide +kernel
  obtain ⟨label, closed, arguments, hbuilt, hkey, -, hlength⟩ :=
    built_of_counts (by rw [hcounts]; exact List.mem_singleton.mpr rfl)
  obtain ⟨g, hg, hkey⟩ := Option.map_eq_some_iff.mp hkey
  obtain ⟨r, hr, harity⟩ := Option.map_eq_some_iff.mp harity
  rw [← hkey] at hr
  have hcount :=
    h _ _ _ _ _ issues_single (uses_single (.inr rfl)) label closed arguments hbuilt g r hg hr
  rw [hlength, harity] at hcount
  cases hcount

end

end ValueText.Factory
