/-
  ValueText.Proofs.Repository.Hosts — what is known of the formatters of the host.

  A formatter of the library writes in a way of its own, one of the host as it likes
  (`HostWriting`).  Of these a repository gives out only what was registered or made by
  constructors.  So what is known of their writings is known of all writings of the
  formatters that it gives out; the library brings none of its own.

      Formatter.Hosts  what is known of the writings, if the formatter is one of the host
      hosting          the origins of a repository whose host formatters are known

  Main results:

    • `hosts_getRuntime`, `hosts_get`     what a repository gives out is known;
    • `holds_withBuiltins`, `holds_new`   the first formatters are all of the library.
-/
import ValueText.Proofs.Repository.Holding
import ValueText.Proofs.Repository.Rules

namespace ValueText

/-! ## §1. Formatters. -/

/-- All writings of the formatter are known, if it is one of the host. -/
def TypedFormatter.Hosts (Host : HostWriting → Prop) : TypedFormatter → Prop
  | .custom _ writing => ∀ v, Host (writing v)
  | _ => True

/-- All writings of the formatter are known, if it is one of the host. -/
def Formatter.Hosts (Host : HostWriting → Prop) : Formatter → Prop
  | .direct _ f => f.Hosts Host
  | .general (.custom _ writing) => ∀ v, Host (writing v)
  | .general _ => True

/-- All writings of the formatter are known, if it is one of the host. -/
def StaticFormatter.Hosts (Host : HostWriting → Prop) : StaticFormatter → Prop
  | .exact f => f.Hosts Host
  | .converting f => f.Hosts Host

theorem TypedFormatter.hosts_true (f : TypedFormatter) : f.Hosts fun _ => True := by
  cases f with
  | custom kind writing => exact fun _ => trivial
  | _ => trivial

theorem Formatter.hosts_true (f : Formatter) : f.Hosts fun _ => True := by
  cases f with
  | direct t f => exact f.hosts_true
  | general f =>
      cases f with
      | custom kind writing => exact fun _ => trivial
      | _ => trivial

theorem StaticFormatter.hosts_true (f : StaticFormatter) : f.Hosts fun _ => True := by
  cases f with
  | exact f => exact f.hosts_true
  | converting f => exact f.hosts_true

variable {Host : HostWriting → Prop}

theorem Handle.hosts_forType {h : Handle} (hf : h.formatter.Hosts Host) (t : HostType) :
    (h.forType t).Hosts Host := by
  unfold Handle.forType
  split
  · next t' f heq =>
      rw [heq] at hf
      split
      · exact hf
      · rw [heq]
        exact hf
  · exact hf

/-! ## §2. What a repository gives out. -/

namespace Repository

/-- The origins of a repository whose host formatters are known. -/
def hosting (Host : HostWriting → Prop) : Factory.Origins Handle Slot where
  registered _ h := h.formatter.Hosts Host
  made h := h.formatter.Hosts Host
  fallback _ h := h.formatter.Hosts Host
  subscribes _ _ := True

variable {r : Repository}

theorem hosts_runtimeFallback (d : Descriptor) : (runtimeFallback d).formatter.Hosts Host := by
  unfold runtimeFallback
  dsimp only
  split
  · trivial
  · split <;> trivial

theorem hosts_staticFallback (d : Descriptor) : (staticFallback d).formatter.Hosts Host := by
  unfold staticFallback
  split
  · trivial
  · exact hosts_runtimeFallback d

theorem hosts_runtimeHandle (d : Descriptor) {h : Handle} (hf : h.formatter.Hosts Host) :
    (runtimeHandle d h).formatter.Hosts Host := by
  unfold runtimeHandle
  split
  · exact hosts_runtimeFallback d
  · exact hf
  · exact hf

theorem hosts_answer {X : Descriptor} {answer : Resolved Handle}
    (h : (hosting Host).Answer X answer) : answer.extension.formatter.Hosts Host := by
  cases h with
  | registered h => exact h
  | made h => exact h
  | fallback h => exact h

/-- **The formatter for values of a type is known**, and looking it up keeps the repository. -/
theorem hosts_getRuntime (hr : r.Holds (hosting Host)) (d : Descriptor) :
    (r.getRuntime d).1.formatter.Hosts Host ∧ (r.getRuntime d).2.Holds (hosting Host) := by
  obtain ⟨⟨t, X, answer, -, -, hanswer, hgives⟩, hleft⟩ :=
    hr.getRuntime (d := d) trivial (hosts_runtimeFallback d)
  refine ⟨?_, hleft.holds⟩
  rw [hgives]
  exact hosts_runtimeHandle t (hosts_answer hanswer)

/-- **The formatter for a host type is known**, and looking it up keeps the repository. -/
theorem hosts_get (hr : r.Holds (hosting Host)) (c : Catalog) (t : HostType) :
    (r.get c t).1.Hosts Host ∧ (r.get c t).2.1.Holds (hosting Host) := by
  obtain ⟨⟨X, answer, -, hanswer, hgives⟩, hleft⟩ :=
    hr.get (c := c) (t := t) trivial (hosts_staticFallback _)
  refine ⟨?_, hleft.holds⟩
  rw [hgives]
  exact Handle.hosts_forType (hosts_answer hanswer) t

/-! ## §3. What it begins with. -/

theorem holds_register (hr : r.Holds (hosting Host)) (c : Catalog) (t : HostType)
    {f : TypedFormatter} (hf : f.Hosts Host) : (r.register c t f).2.1.Holds (hosting Host) :=
  (hr.registerHandle (f := .direct t f) hf).holds

theorem holds_registering {bs : List (HostType × TypedFormatter)}
    (hbs : ∀ b ∈ bs, b.2.Hosts Host) : ∀ {p : Repository × Catalog}, p.1.Holds (hosting Host) →
      (bs.foldl registering p).1.Holds (hosting Host) := by
  induction bs with
  | nil => exact fun h => h
  | cons b rest ih =>
      intro p hp
      exact ih (fun b' hb' => hbs b' (List.mem_cons_of_mem _ hb'))
        (holds_register hp p.2 b.1 (hbs b List.mem_cons_self))

theorem hosts_typedBuiltins : ∀ b ∈ typedBuiltins, b.2.Hosts Host := by
  simp [typedBuiltins, TypedFormatter.Hosts]

theorem hosts_nullableConstructor {closed : Descriptor} {arguments : List Descriptor} {h : Handle}
    (hbuilt : nullableConstructor.build closed arguments = .ok h) : h.formatter.Hosts Host := by
  unfold nullableConstructor at hbuilt
  dsimp only at hbuilt
  split at hbuilt
  · cases hbuilt
    trivial
  · cases hbuilt

/-- The first registrations are of formatters of the library. -/
theorem holds_withBuiltins (hr : r.Holds (hosting Host)) (c : Catalog) :
    (r.withBuiltins c).1.Holds (hosting Host) := by
  have htyped : (typedBuiltins.foldl registering (r, c)).1.Holds (hosting Host) :=
    holds_registering hosts_typedBuiltins hr
  unfold withBuiltins
  generalize typedBuiltins.foldl registering (r, c) = p at htyped ⊢
  have hgeneric : (p.1.registerGeneric Catalog.nullableDefinition nullableConstructor).2.Holds
      (hosting Host) := (htyped.registerGeneric fun _ _ h hbuilt => by
    show h.formatter.Hosts Host
    exact hosts_nullableConstructor hbuilt).holds
  exact holds_register hgeneric p.2 .uuid trivial

/-- **A new repository has no formatters of the host**, so whatever is said of them is known. -/
theorem holds_new (roleName : String) (role : HostType) (c : Catalog) (pool : PoolOptions) :
    (Repository.new roleName role c pool).1.Holds (hosting Host) := by
  have hempty : Repository.Holds (hosting Host)
      { roleName := roleName, factory := { role := some (c.typeOf role).1 }, pool := .new pool } :=
    holds_forget { roleName := roleName, factory := { role := some _ }, pool := .new pool }
  unfold Repository.new
  exact holds_withBuiltins hempty _

theorem holds_reset (r : Repository) (c : Catalog) : (r.reset c).1.Holds (hosting Host) :=
  holds_withBuiltins r.holds_forget c

/-! ## §4. At a desk. -/

/-- The formatters of the repository, unless it is gone, are known. -/
def Hosting (Host : HostWriting → Prop) (home : Option Repository) : Prop :=
  ∀ r, home = some r → r.Holds (hosting Host)

/-- What look-ups for values find is known, and they keep the repository. -/
theorem Hosting.getRuntime (r : Repository) (t : Descriptor) (h : Hosting Host (some r)) :
    (r.getRuntime t).1.formatter.Hosts Host ∧ Hosting Host (some (r.getRuntime t).2) := by
  obtain ⟨hhosts, hleft⟩ := hosts_getRuntime (h r rfl) t
  exact ⟨hhosts, fun _ he => Option.some.inj he ▸ hleft⟩

end Repository
end ValueText
