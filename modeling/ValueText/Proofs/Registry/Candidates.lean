/-
  ValueText.Proofs.Registry.Candidates — the registrations that apply to a type.

  A resolution folds over candidates: the registrations for the types of a chain,
  without the constructors that have failed, in the order of their numbers.  For
  the types of a family the fold's comparison is a strict order, transitive if only
  interfaces are implemented.

  Main results:

    • `Claim.keeps_iff`   a registration keeps its place before the more specific one;
    • `mem_candidates`    what the candidates are;
    • `winner?_eq_champion`  the winner is the champion of the candidates.
-/
import ValueText.Proofs.Registry.Preference
import ValueText.Proofs.Types.Ancestry
import ValueText.Registry.Factory

namespace ValueText

open Descriptor (Family Plain Ancestor)
open Preference (Asymmetric Transitive champion challenge)

/-! ## §1. The preference of registrations. -/

namespace Claim

/-- The target is strictly more specific, or it is the same and only `b` is generic. -/
def MoreSpecific (a b : Claim) : Prop :=
  (a.target.key = b.target.key ∧ a.generic = false ∧ b.generic = true) ∨
    (a.target.key ≠ b.target.key ∧ b.target.isAssignableFrom a.target = true)

/-- Neither of the two is more specific than the other. -/
def Unrelated (a b : Claim) : Prop := ¬ a.MoreSpecific b ∧ ¬ b.MoreSpecific a

/-- Whether the earlier registration keeps its place before the later one. -/
def keeps (earlier later : Claim) : Bool := !later.overrides (some earlier)

variable {K : Descriptor → Prop} {a b c : Claim}

/-- **A registration keeps its place if it is more specific.** -/
theorem keeps_iff (hK : Family K) (ha : K a.target) (hb : K b.target) :
    a.keeps b = true ↔ a.MoreSpecific b := by
  unfold keeps overrides MoreSpecific
  by_cases hkey : b.target.key = a.target.key
  · simp only [hkey, if_true, ne_eq, not_true_eq_false, false_and, or_false, true_and]
    cases a.generic <;> cases b.generic <;> decide
  · have hkey' : a.target.key ≠ b.target.key := fun h => hkey h.symm
    simp only [if_neg hkey, hkey', false_and, false_or, ne_eq, not_false_eq_true, true_and]
    cases hab : a.target.isAssignableFrom b.target with
    | true =>
        -- Two types that can be assigned to each other have one key.
        simp only [if_true, Bool.not_true, Bool.false_eq_true, false_iff]
        intro hba
        exact hkey' (congrArg Descriptor.key (hK.antisymm ha hb hab hba))
    | false => simp

/-- The types of two registrations, one of which is more specific. -/
theorem MoreSpecific.cases (hK : Family K) (ha : K a.target) (hb : K b.target)
    (h : a.MoreSpecific b) : b.target.isAssignableFrom a.target = true ∧
      (a.target.key = b.target.key → a.generic = false ∧ b.generic = true) := by
  rcases h with ⟨hkey, hg⟩ | ⟨hkey, h⟩
  · have he := hK.unique _ _ ha hb hkey
    refine ⟨?_, fun _ => hg⟩
    rw [he]
    unfold Descriptor.isAssignableFrom
    simp
  · exact ⟨h, fun hk => absurd hk hkey⟩

theorem MoreSpecific.asymm (hK : Family K) (ha : K a.target) (hb : K b.target)
    (h : a.MoreSpecific b) : ¬ b.MoreSpecific a := by
  intro h'
  obtain ⟨hab, hg⟩ := h.cases hK ha hb
  obtain ⟨hba, hg'⟩ := h'.cases hK hb ha
  -- The types are one, and then each is the generic registration and is not.
  have hkey := congrArg Descriptor.key (hK.antisymm ha hb hba hab)
  have hgen := (hg hkey).1
  rw [(hg' hkey.symm).2] at hgen
  cases hgen

theorem MoreSpecific.trans (hK : Family K) (hP : Plain K) (ha : K a.target) (hb : K b.target)
    (hc : K c.target) (h₁ : a.MoreSpecific b) (h₂ : b.MoreSpecific c) : a.MoreSpecific c := by
  obtain ⟨hab, hg⟩ := h₁.cases hK ha hb
  obtain ⟨hbc, hg'⟩ := h₂.cases hK hb hc
  by_cases hkey : a.target.key = c.target.key
  · -- Then all three are for one type.
    have he := hK.unique _ _ ha hc hkey
    rw [← he] at hbc
    have hkab := congrArg Descriptor.key (hK.antisymm ha hb hbc hab)
    exact .inl ⟨hkey, (hg hkab).1, (hg' (hkab.symm.trans hkey)).2⟩
  · exact .inr ⟨hkey, hK.isAssignableFrom_trans hP hc hb ha hbc hab⟩

theorem asymmetric (hK : Family K) (cs : List Claim) (h : ∀ c ∈ cs, K c.target) :
    Asymmetric keeps cs := by
  intro a ha b hb hab
  have hlt := (keeps_iff hK (h a ha) (h b hb)).mp hab
  apply Bool.eq_false_iff.mpr
  intro hba
  exact hlt.asymm hK (h a ha) (h b hb) ((keeps_iff hK (h b hb) (h a ha)).mp hba)

theorem transitive (hK : Family K) (hP : Plain K) (cs : List Claim) (h : ∀ c ∈ cs, K c.target) :
    Transitive keeps cs := by
  intro a ha b hb c hc hab hbc
  have h₁ := (keeps_iff hK (h a ha) (h b hb)).mp hab
  have h₂ := (keeps_iff hK (h b hb) (h c hc)).mp hbc
  exact (keeps_iff hK (h a ha) (h c hc)).mpr (h₁.trans hK hP (h a ha) (h b hb) (h c hc) h₂)

/-- The registration for a type keeps its place before those for ancestors. -/
theorem keeps_of_ancestor (hK : Family K) (hP : Plain K) (ha : K a.target) (hb : K b.target)
    (h : Ancestor b.target a.target) : a.keeps b = true := by
  refine (keeps_iff hK ha hb).mpr (.inr ⟨(hK.key_ne_of_ancestor ha h).symm, ?_⟩)
  exact (hK.isAssignableFrom_iff hP hb ha).mpr (.inr (.inr h))

/-- Comparing with the best registration so far, in terms of `overrides`. -/
theorem challenge_eq (best : Option Claim) (c : Claim) :
    challenge keeps best c = if c.overrides best then some c else best := by
  cases best with
  | none => rfl
  | some b =>
      show (if !c.overrides (some b) then some b else some c) = _
      cases c.overrides (some b) with
      | true => rfl
      | false => rfl

end Claim

/-! ## §2. The candidates of a type. -/

namespace Factory

namespace Candidate

variable {ε : Type} {K : Descriptor → Prop}

/-- Whether a candidate keeps its place before a later one. -/
def keeps (a b : Candidate ε) : Bool := a.claim.keeps b.claim

theorem asymmetric (hK : Family K) {cs : List (Candidate ε)} (h : ∀ x ∈ cs, K x.claim.target) :
    Asymmetric keeps cs := by
  intro a ha b hb
  exact Claim.asymmetric hK (cs.map (·.claim)) (List.forall_mem_map.mpr h)
    _ (List.mem_map_of_mem ha) _ (List.mem_map_of_mem hb)

theorem transitive (hK : Family K) (hP : Plain K) {cs : List (Candidate ε)}
    (h : ∀ x ∈ cs, K x.claim.target) : Transitive keeps cs := by
  intro a ha b hb c hc
  exact Claim.transitive hK hP (cs.map (·.claim)) (List.forall_mem_map.mpr h)
    _ (List.mem_map_of_mem ha) _ (List.mem_map_of_mem hb) _ (List.mem_map_of_mem hc)

end Candidate

variable {ε σ : Type} {f : Factory ε σ} {X : Descriptor}

theorem prefer_eq_challenge (best : Option (Candidate ε)) (c : Candidate ε) :
    prefer best c = challenge Candidate.keeps best c := by
  cases best with
  | none => rfl
  | some b =>
      show (if c.claim.overrides (some b.claim) then some c else some b) =
        if !c.claim.overrides (some b.claim) then some b else some c
      cases c.claim.overrides (some b.claim) with
      | true => rfl
      | false => rfl

/-- **The winner is the champion of the candidates.** -/
theorem winner?_eq_champion (f : Factory ε σ) (X : Descriptor) :
    f.winner? X = champion Candidate.keeps (f.candidates X) := by
  unfold winner? champion
  congr 1
  funext best c
  exact prefer_eq_challenge best c

theorem winner?_mem {x : Candidate ε} (h : f.winner? X = some x) : x ∈ f.candidates X :=
  Preference.champion_mem ((winner?_eq_champion f X).symm.trans h)

/-- The candidate of an extension for one type. -/
def InstanceEntry.candidate (i : InstanceEntry ε) : Candidate ε :=
  ⟨⟨i.target, false⟩, i.sequence, .ready i.extension⟩

/-- The candidate of a constructor for the definition `g` and a closed type. -/
def GenericEntry.candidate (r : GenericEntry ε) (g : TypeKey) (d : Descriptor) : Candidate ε :=
  ⟨⟨d, true⟩, r.sequence, .toBuild g r.constructor⟩

/-- The candidate for an extension of one type. -/
def instancesAt (f : Factory ε σ) (d : Descriptor) : List (Candidate ε) :=
  ((f.instances.get? d.key).map InstanceEntry.candidate).toList

/-- The candidate for a constructor of one type, unless it has failed. -/
def genericsAt (f : Factory ε σ) (d : Descriptor) : List (Candidate ε) :=
  match d.definition with
  | none => []
  | some g =>
      if (g.key, d.key) ∈ f.failed then []
      else ((f.generics.get? g.key).map fun r => GenericEntry.candidate r g.key d).toList

theorem candidatesAt_eq (f : Factory ε σ) (d : Descriptor) :
    f.candidatesAt d = f.instancesAt d ++ f.genericsAt d := by
  unfold candidatesAt instancesAt genericsAt
  dsimp only
  congr 1
  · cases f.instances.get? d.key with
    | none => rfl
    | some i => rfl
  · cases d.definition with
    | none => rfl
    | some g =>
        dsimp only
        cases f.generics.get? g.key with
        | none => simp
        | some r =>
            by_cases hf : (g.key, d.key) ∈ f.failed
            · simp [hf]
            · simp [hf, GenericEntry.candidate]

/-- What makes a candidate of a type. -/
inductive IsCandidateAt (f : Factory ε σ) (d : Descriptor) : Candidate ε → Prop
  | instance {i : InstanceEntry ε} (hi : f.instances.get? d.key = some i) :
      IsCandidateAt f d (InstanceEntry.candidate i)
  | generic {g : Descriptor} {r : GenericEntry ε} (hg : d.definition = some g)
      (hr : f.generics.get? g.key = some r) (hf : (g.key, d.key) ∉ f.failed) :
      IsCandidateAt f d (GenericEntry.candidate r g.key d)

theorem mem_instancesAt {d : Descriptor} {x : Candidate ε} :
    x ∈ f.instancesAt d ↔ ∃ i, f.instances.get? d.key = some i ∧ x = InstanceEntry.candidate i := by
  unfold instancesAt
  rw [Option.mem_toList, Option.map_eq_some_iff]
  simp only [eq_comm]

theorem mem_genericsAt {d : Descriptor} {x : Candidate ε} :
    x ∈ f.genericsAt d ↔ ∃ g r, d.definition = some g ∧ f.generics.get? g.key = some r ∧
      (g.key, d.key) ∉ f.failed ∧ x = GenericEntry.candidate r g.key d := by
  unfold genericsAt
  cases d.definition with
  | none => simp
  | some g =>
      by_cases hf : (g.key, d.key) ∈ f.failed
      · simp [hf]
      · cases hr : f.generics.get? g.key with
        | none => simp [hf, hr]
        | some r => simp [hf, hr, eq_comm]

theorem mem_candidatesAt {d : Descriptor} {x : Candidate ε} :
    x ∈ f.candidatesAt d ↔ IsCandidateAt f d x := by
  rw [candidatesAt_eq, List.mem_append, mem_instancesAt, mem_genericsAt]
  constructor
  · rintro (⟨i, hi, rfl⟩ | ⟨g, r, hg, hr, hf, rfl⟩)
    · exact .instance hi
    · exact .generic hg hr hf
  · rintro (⟨hi⟩ | ⟨hg, hr, hf⟩)
    · exact .inl ⟨_, hi, rfl⟩
    · exact .inr ⟨_, _, hg, hr, hf, rfl⟩

/-- **What the candidates of a type are.** -/
theorem mem_candidates {x : Candidate ε} :
    x ∈ f.candidates X ↔ ∃ d ∈ X.chain, IsCandidateAt f d x := by
  unfold candidates
  rw [(StableSort.sort_perm _ _).mem_iff, List.mem_flatMap]
  simp only [mem_candidatesAt]

/-- The candidates depend on the registrations, and on the failures for the types of the chain. -/
theorem candidates_congr {f' : Factory ε σ} (hi : f'.instances = f.instances)
    (hg : f'.generics = f.generics) (hfailed : ∀ d ∈ X.chain, ∀ g, d.definition = some g →
      ((g.key, d.key) ∈ f'.failed ↔ (g.key, d.key) ∈ f.failed)) :
    f'.candidates X = f.candidates X := by
  unfold candidates
  congr 1
  rw [List.flatMap_def, List.flatMap_def]
  refine congrArg List.flatten (List.map_congr_left fun d hd => ?_)
  rw [candidatesAt_eq, candidatesAt_eq]
  unfold instancesAt genericsAt
  rw [hi, hg]
  congr 1
  cases h : d.definition with
  | none => rfl
  | some g => simp only [hfailed d hd g h]

end Factory
end ValueText
