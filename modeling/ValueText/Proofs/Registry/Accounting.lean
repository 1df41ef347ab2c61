/-
  ValueText.Proofs.Registry.Accounting — the runs of a constructor, and what is kept.

  Each run of a constructor for a closed type leaves a notice, and so does each failure
  that is reported.  What a factory keeps for the closed type can be told from these
  notices: the extension that the last run made, and whether one of them failed.

  Main results:

    • `Accounted.trans`  work after work is accounted for;
    • `Once.trans`       a constructor that was run for a closed type is left alone;
    • `Obtains.accounted`  asking a constructor is accounted for.
-/
import ValueText.Proofs.Registry.Retrying

namespace ValueText.Factory

variable {ε σ : Type} {f f' f₁ f₂ : Factory ε σ} {d : Descriptor} {g : TypeKey}
  {p : TypeKey × TypeKey} {c : Constructor ε} {ns ms : List (Notice ε σ)}

/-! ## §1. Runs and reports. -/

/-- The type is the closed type of the pair, an instance of its definition. -/
def IsFor (p : TypeKey × TypeKey) (d : Descriptor) : Prop :=
  d.definition.map (·.key) = some p.1 ∧ d.key = p.2

instance : Decidable (IsFor p d) :=
  inferInstanceAs (Decidable (d.definition.map (·.key) = some p.1 ∧ d.key = p.2))

theorem isFor_iff {h : Descriptor} (hd : d.definition = some h) :
    IsFor p d ↔ (h.key, d.key) = p := by
  unfold IsFor
  rw [hd, Prod.ext_iff]
  simp

/-- The closed type of a run of the constructor for the pair. -/
def runOf? (p : TypeKey × TypeKey) : Notice ε σ → Option Descriptor
  | .built _ d _ => if IsFor p d then some d else none
  | _ => none

/-- The runs of the constructor for a definition and a closed type. -/
def runs (p : TypeKey × TypeKey) (ns : List (Notice ε σ)) : List Descriptor :=
  ns.filterMap (runOf? p)

/-- Whether a failure comes first. -/
def beginsWithFailure : List (Notice ε σ) → Bool
  | .failed _ :: _ => true
  | _ => false

/-- The number of runs for the pair that a reported failure comes right after. -/
def reports (p : TypeKey × TypeKey) : List (Notice ε σ) → Nat
  | [] => 0
  | n :: ns => (if (runOf? p n).isSome && beginsWithFailure ns then 1 else 0) + reports p ns

theorem runs_append : runs p (ns ++ ms) = runs p ns ++ runs p ms := List.filterMap_append

theorem beginsWithFailure_append (hns : beginsWithFailure ns = false)
    (hms : beginsWithFailure ms = false) : beginsWithFailure (ns ++ ms) = false := by
  cases ns with
  | nil => exact hms
  | cons n ns =>
      cases n with
      | failed => cases hns
      | built => rfl
      | fellBack => rfl
      | delivered => rfl

theorem reports_append (hms : beginsWithFailure ms = false) :
    reports p (ns ++ ms) = reports p ns + reports p ms := by
  induction ns with
  | nil => exact (Nat.zero_add _).symm
  | cons n ns ih =>
      have hhead : beginsWithFailure (ns ++ ms) = beginsWithFailure ns := by
        cases ns with
        | nil => exact hms
        | cons m ns => cases m <;> rfl
      rw [List.cons_append, reports, reports, hhead, ih, Nat.add_assoc]

/-- The constructor fails for a closed type. -/
def rejects (f : Factory ε σ) (c : Constructor ε) (d : Descriptor) : Bool :=
  (f.attempt c d).toOption.isNone

/-- The answer comes from the constructor for the pair. -/
def IsFrom (p : TypeKey × TypeKey) (r : Resolved ε) : Prop :=
  ∃ d, r.source = some ⟨d, true⟩ ∧ IsFor p d

/-! ## §2. What the runs account for. -/

/-- The runs of some work account for what is kept for a closed type afterwards: the extension of
the last one, and the failures.  What was made before is kept, and is what is delivered. -/
structure Accounted (p : TypeKey × TypeKey) (c : Constructor ε) (f : Factory ε σ)
    (ns : List (Notice ε σ)) (f' : Factory ε σ) : Prop where
  role : f'.role = f.role
  reporting : f'.reportsFailures = f.reportsFailures
  generics : f'.generics.get? p.1 = f.generics.get? p.1
  idle : f.made.get? p ≠ none → runs p ns = []
  made : f'.made.get? p = match (runs p ns).getLast? with
    | none => f.made.get? p
    | some d => (f.attempt c d).toOption
  failed : p ∈ f'.failed ↔ p ∈ f.failed ∨ ∃ d ∈ runs p ns, f.rejects c d = true
  reports : reports p ns =
    if f.reportsFailures then ((runs p ns).filter (f.rejects c)).length else 0
  begins : beginsWithFailure ns = false
  delivered : ∀ s r, Notice.delivered s r ∈ ns → IsFrom p r →
    f'.made.get? p = some r.extension

/-- The constructor was run for the closed type, with whatever result. -/
def Spent (f : Factory ε σ) (p : TypeKey × TypeKey) : Prop := f.made.get? p ≠ none ∨ p ∈ f.failed

namespace Accounted

theorem rejects (h : Accounted p c f ns f') (d : Descriptor) : f'.rejects c d = f.rejects c d := by
  unfold Factory.rejects
  rw [attempt_of_role h.role]

/-- Without runs nothing changes. -/
theorem made_of_idle (h : Accounted p c f ns f') (hidle : runs p ns = []) :
    f'.made.get? p = f.made.get? p := by
  rw [h.made, hidle]
  rfl

theorem kept (h : Accounted p c f ns f') {e : ε} (he : f.made.get? p = some e) :
    f'.made.get? p = some e := by
  rw [h.made_of_idle (h.idle (by rw [he]; exact nofun)), he]

theorem spent (h : Accounted p c f ns f') (hf : f.Spent p) : f'.Spent p := by
  rcases hf with hmade | hfailed
  · refine .inl ?_
    rwa [h.made_of_idle (h.idle hmade)]
  · exact .inr (h.failed.mpr (.inl hfailed))

/-- After a run, whatever it came to, the closed type is spent. -/
theorem spent_of_runs (h : Accounted p c f ns f') (hruns : runs p ns ≠ []) : f'.Spent p := by
  have hlast := List.getLast?_eq_some_getLast hruns
  cases hattempt : f.attempt c ((runs p ns).getLast hruns) with
  | ok e =>
      refine .inl ?_
      rw [h.made, hlast]
      dsimp only
      rw [hattempt]
      exact nofun
  | error err =>
      refine .inr (h.failed.mpr (.inr ⟨_, List.getLast_mem hruns, ?_⟩))
      unfold Factory.rejects
      rw [hattempt]
      rfl

/-- What leaves the parts of a factory alone that matter for the pair, does not run the constructor
and delivers only what was made. -/
theorem of_quiet (hrole : f'.role = f.role) (hreporting : f'.reportsFailures = f.reportsFailures)
    (hgenerics : f'.generics.get? p.1 = f.generics.get? p.1)
    (hmade : f'.made.get? p = f.made.get? p) (hfailed : p ∈ f'.failed ↔ p ∈ f.failed)
    (hruns : runs p ns = []) (hreports : Factory.reports p ns = 0)
    (hbegins : beginsWithFailure ns = false) (hdelivered : ∀ s r, Notice.delivered s r ∈ ns →
      IsFrom p r → f.made.get? p = some r.extension) : Accounted p c f ns f' := by
  refine ⟨hrole, hreporting, hgenerics, fun _ => hruns, ?_, ?_, ?_, hbegins,
    fun s r hmem hr => hmade.trans (hdelivered s r hmem hr)⟩
  · rw [hruns, hmade]
    rfl
  · rw [hruns, hfailed]
    simp
  · rw [hruns, hreports]
    simp

theorem refl (p : TypeKey × TypeKey) (c : Constructor ε) (f : Factory ε σ) :
    Accounted p c f [] f := of_quiet rfl rfl rfl rfl Iff.rfl rfl rfl rfl nofun

/-- **Work after work is accounted for.** -/
theorem trans (h₁ : Accounted p c f ns f₁) (h₂ : Accounted p c f₁ ms f₂) :
    Accounted p c f (ns ++ ms) f₂ := by
  have hrejects : f₁.rejects c = f.rejects c := funext h₁.rejects
  refine ⟨h₂.role.trans h₁.role, h₂.reporting.trans h₁.reporting, h₂.generics.trans h₁.generics,
    fun hmade => ?_, ?_, ?_, ?_, beginsWithFailure_append h₁.begins h₂.begins,
    fun s r hmem hr => ?_⟩
  · have hns := h₁.idle hmade
    rw [runs_append, hns, h₂.idle (by rwa [h₁.made_of_idle hns])]
    rfl
  · rw [h₂.made, runs_append, List.getLast?_append]
    cases hlast : (runs p ms).getLast? with
    | none => exact h₁.made
    | some d => exact congrArg Except.toOption (attempt_of_role h₁.role c d)
  · rw [h₂.failed, h₁.failed, runs_append, hrejects, or_assoc]
    simp only [List.mem_append, or_and_right, exists_or]
  · rw [reports_append h₂.begins, h₁.reports, h₂.reports, h₁.reporting, runs_append, hrejects,
      List.filter_append, List.length_append]
    split <;> rfl
  · rcases List.mem_append.mp hmem with hmem | hmem
    · exact h₂.kept (h₁.delivered s r hmem hr)
    · exact h₂.delivered s r hmem hr

end Accounted

/-- Work that runs the constructor at most once for a closed type, and not again. -/
structure Once (p : TypeKey × TypeKey) (c : Constructor ε) (f : Factory ε σ)
    (ns : List (Notice ε σ)) (f' : Factory ε σ) : Prop extends Accounted p c f ns f' where
  le_one : (runs p ns).length ≤ 1
  spare : f.Spent p → runs p ns = []

namespace Once

theorem of_idle (h : Accounted p c f ns f') (hidle : runs p ns = []) : Once p c f ns f' :=
  ⟨h, by rw [hidle]; exact Nat.zero_le 1, fun _ => hidle⟩

theorem refl (p : TypeKey × TypeKey) (c : Constructor ε) (f : Factory ε σ) : Once p c f [] f :=
  of_idle (.refl p c f) rfl

theorem trans (h₁ : Once p c f ns f₁) (h₂ : Once p c f₁ ms f₂) : Once p c f (ns ++ ms) f₂ := by
  refine ⟨h₁.toAccounted.trans h₂.toAccounted, ?_, fun hf => ?_⟩
  · rw [runs_append, List.length_append]
    by_cases hns : runs p ns = []
    · rw [hns]
      simpa using h₂.le_one
    · -- The run is over, and there is none afterwards.
      rw [h₂.spare (h₁.spent_of_runs hns)]
      simpa using h₁.le_one
  · rw [runs_append, h₁.spare hf, h₂.spare (h₁.spent hf)]
    rfl

end Once

/-! ## §3. Asking a constructor. -/

/-- The report of a failure, if somebody wants it. -/
def report (wanted : Bool) (err : InstantiationError) : List (Notice ε σ) :=
  if wanted then [.failed err] else []

section

variable (p) (wanted : Bool) (err : InstantiationError)

theorem runs_report : runs p (report wanted err : List (Notice ε σ)) = [] := by
  cases wanted <;> rfl

theorem reports_report : reports p (report wanted err : List (Notice ε σ)) = 0 := by
  cases wanted <;> rfl

theorem beginsWithFailure_report :
    beginsWithFailure (report wanted err : List (Notice ε σ)) = wanted := by
  cases wanted <;> rfl

theorem not_mem_report (s : σ) (r : Resolved ε) : Notice.delivered s r ∉ report wanted err := by
  cases wanted <;> simp [report]

theorem runs_built (label : Option String) (d : Descriptor) (arguments : List Descriptor) :
    runs p (.built label d arguments :: ns) = (if IsFor p d then [d] else []) ++ runs p ns := by
  unfold runs
  rw [List.filterMap_cons]
  unfold runOf?
  by_cases h : IsFor p d <;> simp [h]

theorem reports_built (label : Option String) (d : Descriptor) (arguments : List Descriptor) :
    reports p (.built label d arguments :: ns) =
      (if IsFor p d ∧ beginsWithFailure ns = true then 1 else 0) + reports p ns := by
  rw [reports, runOf?]
  by_cases h : IsFor p d <;> simp [h]

end

/-- What asking a constructor for a closed type comes to: what was made is found, or the constructor
is run. -/
inductive Obtains (f : Factory ε σ) (g : TypeKey) (c : Constructor ε) (d : Descriptor) :
    Option ε × Factory ε σ × List (Notice ε σ) → Prop
  | found (e : ε) (he : f.made.get? (g, d.key) = some e) : Obtains f g c d (some e, f, [])
  | made (e : ε) (hnone : f.made.get? (g, d.key) = none) (hok : f.attempt c d = .ok e) :
      Obtains f g c d (some e, { f with made := f.made.set (g, d.key) e },
        [.built c.label d (f.argumentsFor c d)])
  | failed (err : InstantiationError) (hnone : f.made.get? (g, d.key) = none)
      (herr : f.attempt c d = .error err) :
      Obtains f g c d (none, { f with failed := (g, d.key) :: f.failed },
        .built c.label d (f.argumentsFor c d) :: report f.reportsFailures err)

theorem obtains (f : Factory ε σ) (g : TypeKey) (c : Constructor ε) (d : Descriptor) :
    Obtains f g c d (f.obtain g c d) := by
  unfold obtain
  split
  · next e he => exact .found e he
  · next hnone =>
      unfold construct
      dsimp only
      split
      · next e hok => exact .made e hnone hok
      · next err herr =>
          have hfailed := Obtains.failed (σ := σ) err hnone herr
          unfold report at hfailed
          split
          · next h => rwa [if_pos h] at hfailed
          · next h => rwa [if_neg h] at hfailed

section

variable {h : Descriptor} {c' : Constructor ε} {out : Option ε × Factory ε σ × List (Notice ε σ)}

/-- What is given is what is kept. -/
theorem Obtains.value (hout : Obtains f g c d out) : out.1 = out.2.1.made.get? (g, d.key) := by
  cases hout with
  | found e he => exact he.symm
  | made e hnone hok => simp
  | failed err hnone herr => exact hnone.symm

/-- There is a run for the pair if it is the one that the constructor is asked for, and nothing was
made for it before. -/
theorem Obtains.runs (hd : d.definition = some h) (hout : Obtains f h.key c d out) :
    runs p out.2.2 = if (h.key, d.key) = p ∧ f.made.get? p = none then [d] else [] := by
  have hfor := isFor_iff (p := p) hd
  have hbuilt (hnone : f.made.get? (h.key, d.key) = none) : (if IsFor p d then [d] else []) =
      if (h.key, d.key) = p ∧ f.made.get? p = none then [d] else [] := by
    by_cases hp : (h.key, d.key) = p
    · rw [if_pos (hfor.mpr hp), if_pos ⟨hp, by rwa [← hp]⟩]
    · rw [if_neg (hfor.not.mpr hp), if_neg fun h => hp h.1]
  cases hout with
  | found e he =>
      rw [if_neg]
      · rfl
      · rintro ⟨rfl, hnone⟩
        rw [he] at hnone
        cases hnone
  | made e hnone hok =>
      rw [runs_built, ← hbuilt hnone]
      exact List.append_nil _
  | failed err hnone herr =>
      rw [runs_built, runs_report, ← hbuilt hnone]
      exact List.append_nil _

/-- The constructor for another pair is asked. -/
theorem Obtains.elsewhere (hd : d.definition = some h) (hp : (h.key, d.key) ≠ p)
    (hout : Obtains f h.key c' d out) : Accounted p c f out.2.2 out.2.1 := by
  have hfor : ¬ IsFor p d := (isFor_iff hd).not.mpr hp
  have hruns : Factory.runs p out.2.2 = [] := by
    rw [hout.runs hd, if_neg fun h => hp h.1]
  cases hout with
  | found => exact .refl p c f
  | made e hnone hok =>
      refine .of_quiet rfl rfl rfl ?_ Iff.rfl hruns ?_ rfl (by simp)
      · show (f.made.set (h.key, d.key) e).get? p = f.made.get? p
        rw [Table.get?_set, if_neg hp]
      · rw [reports_built, if_neg fun h => hfor h.1]
        rfl
  | failed err hnone herr =>
      refine .of_quiet rfl rfl rfl rfl ?_ hruns ?_ rfl fun s r hmem => ?_
      · show p ∈ (h.key, d.key) :: f.failed ↔ p ∈ f.failed
        rw [List.mem_cons]
        exact or_iff_right (Ne.symm hp)
      · rw [reports_built, if_neg fun h => hfor h.1, reports_report]
      · rcases List.mem_cons.mp hmem with hmem | hmem
        · cases hmem
        · exact absurd hmem (not_mem_report _ _ s r)

/-- The constructor for the pair is asked. -/
theorem Obtains.here (hd : d.definition = some h) (hout : Obtains f h.key c d out) :
    Accounted (h.key, d.key) c f out.2.2 out.2.1 := by
  have hfor : IsFor (h.key, d.key) d := (isFor_iff hd).mpr rfl
  have hruns : Factory.runs (h.key, d.key) out.2.2 =
      if f.made.get? (h.key, d.key) = none then [d] else [] := by
    rw [hout.runs hd]
    simp only [true_and]
  cases hout with
  | found => exact .refl _ c f
  | made e hnone hok =>
      have hworks : f.rejects c d = false := by
        unfold rejects
        rw [hok]
        rfl
      rw [if_pos hnone] at hruns
      refine ⟨rfl, rfl, rfl, fun he => absurd hnone he, ?_, ?_, ?_, rfl, by simp⟩
      · rw [hruns]
        show (f.made.set (h.key, d.key) e).get? (h.key, d.key) = (f.attempt c d).toOption
        rw [hok, Table.get?_set, if_pos rfl]
        rfl
      · rw [hruns]
        simp [hworks]
      · rw [hruns, reports_built]
        simp [hworks, beginsWithFailure, reports]
  | failed err hnone herr =>
      have hfails : f.rejects c d = true := by
        unfold rejects
        rw [herr]
        rfl
      rw [if_pos hnone] at hruns
      refine ⟨rfl, rfl, rfl, fun he => absurd hnone he, ?_, ?_, ?_, rfl, fun s r hmem => ?_⟩
      · rw [hruns]
        show f.made.get? (h.key, d.key) = (f.attempt c d).toOption
        rw [herr, hnone]
        rfl
      · rw [hruns]
        simp [hfails]
      · rw [hruns, reports_built, reports_report, beginsWithFailure_report]
        simp [hfor, hfails]
      · rcases List.mem_cons.mp hmem with hmem | hmem
        · cases hmem
        · exact absurd hmem (not_mem_report _ _ s r)

/-- **Asking a constructor is accounted for**, whether it is the one for the pair or another one. -/
theorem Obtains.accounted (hd : d.definition = some h) (hc : h.key = p.1 → c' = c)
    (hout : Obtains f h.key c' d out) : Accounted p c f out.2.2 out.2.1 := by
  by_cases hp : (h.key, d.key) = p
  · cases hc (congrArg Prod.fst hp)
    rw [← hp]
    exact hout.here hd
  · exact hout.elsewhere hd hp

/-- A constructor that is not set aside is run at most once. -/
theorem Obtains.once (hd : d.definition = some h) (hc : h.key = p.1 → c' = c)
    (hopen : (h.key, d.key) ∉ f.failed) (hout : Obtains f h.key c' d out) :
    Once p c f out.2.2 out.2.1 := by
  have haccounted := hout.accounted hd hc
  refine ⟨haccounted, ?_, fun hspent => ?_⟩
  · rw [hout.runs hd]
    split <;> simp
  · rw [hout.runs hd, if_neg]
    rintro ⟨rfl, hnone⟩
    exact hspent.elim (fun hmade => hmade hnone) hopen

end

end ValueText.Factory
