/-
  ValueText.Proofs.Repository.Holding — where the formatters of a repository come from.

  What a repository remembers was delivered to it by its factory.  So what is known
  of its registrations and constructors is known of the formatters that it gives out,
  remembered or not.

  Main results:

    • `Repository.Holds O r`   all that the repository holds and remembers has one of
                               the origins `O`;
    • `Holds.getRuntime`, `Holds.get`
                               so has what it gives out;
    • `Holds.registerHandle`, `Holds.registerGeneric`, `Holds.forget`
                               and the other operations keep it that way.
-/
import ValueText.Proofs.Registry.Holding
import ValueText.Repository.Writing

namespace ValueText

/-- The slot is for answers for a type of the family. -/
def Slot.Asks (K : Descriptor → Prop) : Slot → Descriptor → Prop
  | .static t, X => X.key = .host t ∧ K X
  | .runtime d, X => X = d ∧ K d

namespace Repository

open Factory (Origins)

/-! ## §1. What is remembered. -/

/-- The formatter is what the handle of an answer for the host type gives. -/
def GivesStatic (O : Origins Handle Slot) (t : HostType) (f : StaticFormatter) : Prop :=
  ∃ X answer, O.subscribes (.static t) X ∧ O.Answer X answer ∧ f = answer.extension.forType t

/-- The handle is what an answer for a type of the key gives to values. -/
def GivesRuntime (O : Origins Handle Slot) (k : TypeKey) (h : Handle) : Prop :=
  ∃ d X answer, d.key = k ∧ O.subscribes (.runtime d) X ∧ O.Answer X answer ∧
    h = runtimeHandle d answer.extension

/-- All that the repository holds and remembers has one of the origins. -/
structure Holds (O : Origins Handle Slot) (r : Repository) : Prop where
  factory : O.Holds r.factory
  statics : ∀ t f, r.statics.get? t = some f → GivesStatic O t f
  runtime : ∀ k h, r.runtime.get? k = some h → GivesRuntime O k h

variable {O : Origins Handle Slot} {r : Repository}

/-- The repository without registrations, and with nothing remembered. -/
def forget (r : Repository) : Repository :=
  { r with factory := r.factory.clear, statics := .empty, runtime := .empty }

theorem holds_forget (r : Repository) : r.forget.Holds O :=
  ⟨Factory.Origins.holds_clear _, nofun, nofun⟩

/-- Pool, count of registrations and notices are not what a repository holds. -/
theorem Holds.of_eq {r' : Repository} (h : r.Holds O) (hf : r'.factory = r.factory)
    (hs : r'.statics = r.statics) (hr : r'.runtime = r.runtime) : r'.Holds O :=
  ⟨hf ▸ h.factory, hs ▸ h.statics, hr ▸ h.runtime⟩

theorem Holds.accept (h : r.Holds O) {n : Notice Handle Slot}
    (hn : ∀ s answer, n = .delivered s answer → ∃ X, O.subscribes s X ∧ O.Answer X answer) :
    (r.accept n).Holds O := by
  cases n with
  | delivered s answer =>
      obtain ⟨X, hs, ha⟩ := hn s answer rfl
      cases s with
      | static t =>
          refine ⟨h.factory, fun t' f hf => ?_, h.runtime⟩
          have hf : (r.statics.set t (answer.extension.forType t)).get? t' = some f := hf
          rw [Table.get?_set] at hf
          split at hf
          · next ht =>
              cases hf
              subst ht
              exact ⟨X, answer, hs, ha, rfl⟩
          · exact h.statics t' f hf
      | runtime d =>
          refine ⟨h.factory, h.statics, fun k g hg => ?_⟩
          have hg : (r.runtime.set d.key (runtimeHandle d answer.extension)).get? k = some g := hg
          rw [Table.get?_set] at hg
          split at hg
          · next hk =>
              cases hg
              exact ⟨d, X, answer, hk, hs, ha, rfl⟩
          · exact h.runtime k g hg
  | built => exact h
  | failed => exact h
  | fellBack => exact h

theorem notices_accept (r : Repository) (n : Notice Handle Slot) :
    (r.accept n).notices = r.notices := by
  unfold Repository.accept
  split <;> rfl

/-- What a notice does not change, several do not change. -/
theorem foldl_accept {α : Type} {part : Repository → α} (h : ∀ r n, part (r.accept n) = part r)
    (ns : List (Notice Handle Slot)) : ∀ r : Repository, part (ns.foldl accept r) = part r := by
  induction ns with
  | nil => exact fun r => rfl
  | cons n rest ih => exact fun r => (ih _).trans (h r n)

/-- What becomes of a repository: it holds only what has one of the origins, and so has what it
was delivered in the meantime. -/
structure Continues (O : Origins Handle Slot) (r r' : Repository) : Prop where
  holds : r'.Holds O
  notices : ∃ ns, r'.notices = r.notices ++ ns ∧ O.Delivers ns

theorem Holds.continues (h : r.Holds O) : Continues O r r :=
  ⟨h, [], by simp, Origins.delivers_nil⟩

theorem Continues.trans {r₁ r₂ : Repository} (h₁ : Continues O r r₁) (h₂ : Continues O r₁ r₂) :
    Continues O r r₂ := by
  obtain ⟨ns, hns, hd⟩ := h₁.notices
  obtain ⟨ms, hms, hd'⟩ := h₂.notices
  exact ⟨h₂.holds, ns ++ ms, by rw [hms, hns, List.append_assoc], hd.append hd'⟩

theorem Continues.delivers {r' : Repository} (h : Continues O r r') (hr : O.Delivers r.notices) :
    O.Delivers r'.notices := by
  obtain ⟨ns, hns, hdelivers⟩ := h.notices
  rw [hns]
  exact hr.append hdelivers

/-- The repository holds, and was delivered, only what has one of the origins. -/
def Records (O : Origins Handle Slot) (r : Repository) : Prop := r.Holds O ∧ O.Delivers r.notices

theorem Records.continues {r' : Repository} (h : r.Records O) (hc : Continues O r r') :
    r'.Records O := ⟨hc.holds, hc.delivers h.2⟩

theorem Records.forget (h : r.Records O) : r.forget.Records O := ⟨r.holds_forget, h.2⟩

/-- What the factory delivers is remembered. -/
theorem Holds.follow (h : r.Holds O) {f : Factory Handle Slot} {ns : List (Notice Handle Slot)}
    (hf : O.Holds f) (hns : O.Delivers ns) : Continues O r (r.follow f ns) := by
  have hall : ∀ (ns : List (Notice Handle Slot)) (r : Repository), r.Holds O → O.Delivers ns →
      (ns.foldl Repository.accept r).Holds O := by
    intro ns
    induction ns with
    | nil => exact fun r hr _ => hr
    | cons n rest ih =>
        intro r hr hns
        have haccepted : (r.accept n).Holds O := hr.accept fun s answer hn =>
          hns s answer (hn ▸ List.mem_cons_self)
        exact ih _ haccepted fun s answer hmem => hns s answer (List.mem_cons_of_mem _ hmem)
  refine ⟨hall ns { r with factory := f, notices := r.notices ++ ns }
    ⟨hf, h.statics, h.runtime⟩ hns, ns, ?_, hns⟩
  exact foldl_accept notices_accept ns _

/-! ## §2. Looking up. -/

/-- **The formatter for values of a type has one of the origins.** -/
theorem Holds.getRuntime (h : r.Holds O) {d : Descriptor} (hs : O.subscribes (.runtime d) d)
    (hfallback : O.fallback d (runtimeFallback d)) :
    GivesRuntime O d.key (r.getRuntime d).1 ∧ Continues O r (r.getRuntime d).2 := by
  unfold Repository.getRuntime
  split
  · next g hg => exact ⟨h.runtime _ _ hg, h.continues⟩
  · have hasked : ∀ s, some (Slot.runtime d) = some s → O.subscribes s d := by
      intro s he
      cases he
      exact hs
    obtain ⟨hanswer, hleft, hdelivered⟩ := h.factory.resolve hasked hfallback
    exact ⟨⟨d, d, _, rfl, hs, hanswer, rfl⟩, h.follow hleft hdelivered⟩

/-- **The formatter for a host type has one of the origins.** -/
theorem Holds.get (h : r.Holds O) {c : Catalog} {t : HostType}
    (hs : O.subscribes (.static t) (c.typeOf t).1)
    (hfallback : O.fallback (c.typeOf t).1 (staticFallback (c.typeOf t).1)) :
    GivesStatic O t (r.get c t).1 ∧ Continues O r (r.get c t).2.1 := by
  unfold Repository.get
  split
  · next f hf => exact ⟨h.statics _ _ hf, h.continues⟩
  · have hasked : ∀ s, some (Slot.static t) = some s → O.subscribes s (c.typeOf t).1 := by
      intro s he
      cases he
      exact hs
    obtain ⟨hanswer, hleft, hdelivered⟩ := h.factory.resolve hasked hfallback
    exact ⟨⟨(c.typeOf t).1, _, hs, hanswer, rfl⟩, h.follow hleft hdelivered⟩

/-! ## §3. Registrations. -/

/-- The repository after one more registration was tried. -/
theorem Holds.counted (h : r.Holds O) :
    Continues O r { r with registrations := r.registrations + 1 } :=
  ⟨h.of_eq rfl rfl rfl, [], by simp, Origins.delivers_nil⟩

theorem Holds.registerHandle (h : r.Holds O) {target valueType : Descriptor} {f : Formatter}
    (hregistered : O.registered target ⟨.registered r.registrations, valueType, f⟩) :
    Continues O r (r.registerHandle target valueType f).2 := by
  unfold Repository.registerHandle
  dsimp only
  split
  · exact h.counted
  · next factory ns hok =>
      obtain ⟨hleft, hdelivered⟩ := h.factory.registerInstance hregistered hok
      exact h.counted.trans (h.counted.holds.follow hleft hdelivered)

theorem Holds.registerGeneric (h : r.Holds O) {definition : Descriptor} {k : Constructor Handle}
    (hmakes : ∀ closed arguments e, k.build closed arguments = .ok e →
      O.made { e with provenance := .constructed r.registrations closed.key }) :
    Continues O r (r.registerGeneric definition k).2 := by
  unfold Repository.registerGeneric
  dsimp only
  split
  · exact h.counted
  · next factory ns hok =>
      have hmarked : O.Makes { k with build := fun closed arguments =>
          (k.build closed arguments).map fun h =>
            { h with provenance := .constructed r.registrations closed.key } } := by
        intro closed arguments e he
        have he : (k.build closed arguments).map (fun h : Handle =>
            { h with provenance := Provenance.constructed r.registrations closed.key }) = .ok e :=
          he
        cases hbuilt : k.build closed arguments with
        | error err => rw [hbuilt] at he; cases he
        | ok e' =>
            rw [hbuilt] at he
            cases he
            exact hmakes closed arguments e' hbuilt
      obtain ⟨hleft, hdelivered⟩ := h.factory.registerGeneric hmarked hok
      exact h.counted.trans (h.counted.holds.follow hleft hdelivered)

end Repository
end ValueText
