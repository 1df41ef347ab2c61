/-
  ValueText.Proofs.Registry.Registration — what a registration changes.

  A registration takes the place of the one for the same type or definition, and gets
  the last number.  So the candidates of a type are those that were there, without the
  old registration and with the new one at the end.

  Main results, for a type whose family implements interfaces only:

    • `leader?_registered`   the new leader is found by comparing the registration with
                             the old leader, even where an old registration went;
    • `InSync.kept`, `InSync.overridden`
                             what this means for an answer that was in sync;
    • `InSync.withExtension`  both together, for an extension.
-/
import ValueText.Proofs.Registry.History
import ValueText.Proofs.Sorting

namespace ValueText

open Descriptor (Family Plain Ancestor)

/-! ## §1. The candidates at a place. -/

namespace Factory

open StableSort (Ascending ofNumber)
open Preference (challenge)

variable {ε σ : Type} {K : Descriptor → Prop} {f f' : Factory ε σ} {X : Descriptor} {a : Place}

/-- The candidates that the registration at a place makes, in the order of the chain. -/
def block (f : Factory ε σ) (X : Descriptor) (a : Place) : List (Candidate ε) :=
  (X.chain.flatMap f.candidatesAt).filter fun x => x.place = a

theorem mem_flatMap_candidatesAt {x : Candidate ε} :
    x ∈ X.chain.flatMap f.candidatesAt ↔ x ∈ f.candidates X :=
  (StableSort.sort_perm _ _).mem_iff.symm

theorem mem_block {x : Candidate ε} : x ∈ f.block X a ↔ x ∈ f.candidates X ∧ x.place = a := by
  unfold block
  rw [List.mem_filter, mem_flatMap_candidatesAt, decide_eq_true_eq]

/-- The candidates of a place have the number of its registration. -/
theorem number?_of_mem (hf : Sound K f) {x : Candidate ε} (hx : x ∈ f.candidates X) :
    f.number? x.place = some x.sequence := by
  obtain ⟨d, -, hx⟩ := mem_candidates.mp hx
  cases hx with
  | @«instance» i hi =>
      show (f.instances.get? i.target.key).map (·.sequence) = some i.sequence
      rw [(hf.instance_ _ _ hi).1, hi]
      rfl
  | @generic g r hg hr hfailed =>
      show (f.generics.get? g.key).map (·.sequence) = some r.sequence
      rw [hr]
      rfl

theorem sequence_eq_iff (hf : Sound K f) {n : Nat} (ha : f.number? a = some n) {x : Candidate ε}
    (hx : x ∈ f.candidates X) : x.sequence = n ↔ x.place = a := by
  have hnumber := number?_of_mem hf hx
  constructor
  · intro h
    rw [h] at hnumber
    exact hf.numbered.unique _ _ _ hnumber ha
  · intro h
    rw [h, ha] at hnumber
    exact (Option.some.inj hnumber).symm

theorem ascending_candidates (f : Factory ε σ) (X : Descriptor) :
    Ascending Candidate.sequence (f.candidates X) := StableSort.ascending_sort _

theorem ofNumber_candidates (f : Factory ε σ) (X : Descriptor) (n : Nat) :
    ofNumber Candidate.sequence n (f.candidates X) =
      ofNumber Candidate.sequence n (X.chain.flatMap f.candidatesAt) := StableSort.ofNumber_sort _ n

/-- The candidates of one place stand together. -/
theorem candidates_around (hf : Sound K f) (X : Descriptor) (a : Place) : ∃ before after,
    f.candidates X = before ++ f.block X a ++ after ∧
      (f.candidates X).filter (fun x => x.place ≠ a) = before ++ after := by
  cases ha : f.number? a with
  | none =>
      -- Nothing is registered at the place, so it has no candidates.
      have hplace : ∀ x ∈ f.candidates X, x.place ≠ a := by
        intro x hx he
        have hnumber := number?_of_mem hf hx
        rw [he, ha] at hnumber
        cases hnumber
      have hnil : f.block X a = [] := by
        apply List.eq_nil_iff_forall_not_mem.mpr
        intro x hx
        exact hplace x (mem_block.mp hx).1 (mem_block.mp hx).2
      refine ⟨f.candidates X, [], by rw [hnil, List.append_nil, List.append_nil], ?_⟩
      rw [List.append_nil]
      exact List.filter_eq_self.mpr fun x hx => decide_eq_true (hplace x hx)
  | some n =>
      -- The candidates of the place are those of its number, which stand together.
      have hblock : ofNumber Candidate.sequence n (f.candidates X) = f.block X a := by
        rw [ofNumber_candidates]
        apply List.filter_congr
        intro x hx
        exact decide_eq_decide.mpr (sequence_eq_iff hf ha (mem_flatMap_candidatesAt.mp hx))
      have hsplit := (ascending_candidates f X).split n
      rw [hblock] at hsplit
      refine ⟨_, _, hsplit, ?_⟩
      conv => lhs; rw [hsplit]
      have hkeep {p : Candidate ε → Bool} (hp : ∀ x, p x = true → x.sequence ≠ n) :
          ((f.candidates X).filter p).filter (fun x => x.place ≠ a) = (f.candidates X).filter p := by
        apply List.filter_eq_self.mpr
        intro x hx
        apply decide_eq_true
        intro he
        obtain ⟨hx, hpx⟩ := List.mem_filter.mp hx
        exact hp x hpx ((sequence_eq_iff hf ha hx).mpr he)
      -- The middle part is the place's own, and nothing of the other parts is.
      have hdrop : (f.block X a).filter (fun x => x.place ≠ a) = [] := by
        apply List.filter_eq_nil_iff.mpr
        intro x hx
        simpa using (mem_block.mp hx).2
      rw [List.filter_append, List.filter_append, hdrop, List.append_nil]
      congr 1
      · apply hkeep
        intro x hx
        have := of_decide_eq_true hx
        omega
      · apply hkeep
        intro x hx
        have := of_decide_eq_true hx
        omega

/-- The registration at a place has the last number, and at the other places nothing changed. -/
structure Replaced (f f' : Factory ε σ) (X : Descriptor) (a : Place) : Prop where
  number : f'.number? a = some (f.lastSequence + 1)
  others : ∀ d ∈ X.chain, (f'.candidatesAt d).filter (fun x => x.place ≠ a) =
    (f.candidatesAt d).filter fun x => x.place ≠ a

/-- **A registration with the last number replaces the one at its place**: the candidates are
those of the other places and then its own. -/
theorem candidates_replaced (hf : Sound K f) (hf' : Sound K f') (h : Replaced f f' X a) :
    f'.candidates X = (f.candidates X).filter (fun x => x.place ≠ a) ++ f'.block X a := by
  refine StableSort.sort_replaced ?_ (n := f.lastSequence + 1) (fun x hx => ?_) fun x hx => ?_
  · rw [List.filter_flatMap, List.filter_flatMap, List.flatMap_def, List.flatMap_def]
    exact congrArg List.flatten (List.map_congr_left h.others)
  · have := hf.numbered.le _ _ (number?_of_mem hf (mem_flatMap_candidatesAt.mp hx))
    omega
  · exact sequence_eq_iff hf' h.number (mem_flatMap_candidatesAt.mp hx)

/-- If the place has no candidates before and after, nothing changes. -/
theorem candidates_untouched (hf : Sound K f) (hf' : Sound K f') (h : Replaced f f' X a)
    (hnone : ∀ x, x.place = a → x ∉ f.candidates X ∧ x ∉ f'.candidates X) :
    f'.candidates X = f.candidates X := by
  have hnil : f'.block X a = [] := by
    apply List.eq_nil_iff_forall_not_mem.mpr
    intro x hx
    obtain ⟨hx, hplace⟩ := mem_block.mp hx
    exact (hnone x hplace).2 hx
  rw [candidates_replaced hf hf' h, hnil, List.append_nil]
  exact List.filter_eq_self.mpr fun x hx => decide_eq_true fun hplace => (hnone x hplace).1 hx

/-- The candidates of one place are for one type after another, each an ancestor of the one
before, so that the first one keeps its place before the others. -/
theorem block_keeps (hK : Family K) (hP : Plain K) (hf : Sound K f) (hX : K X) (a : Place) :
    (f.block X a).Pairwise fun x y => x.claim.keeps y.claim = true := by
  have hinstances : X.chain.Pairwise fun d e =>
      d.definition.isSome = true → e.definition.isSome = true → Ancestor e d :=
    List.pairwise_filter.mp (hK.instances_chain hP hX)
  have hsingle (o : Option (Candidate ε)) :
      (o.toList.filter fun x => x.place = a).Pairwise fun x y => x.claim.keeps y.claim = true := by
    apply List.Pairwise.sublist List.filter_sublist
    cases o with
    | none => exact List.Pairwise.nil
    | some x => exact List.pairwise_singleton _ _
  unfold block
  rw [List.filter_flatMap, List.pairwise_flatMap]
  refine ⟨fun d hd => ?_, ?_⟩
  · rw [candidatesAt_eq, List.filter_append]
    refine List.pairwise_append.mpr ⟨hsingle _, ?_, fun x hx y hy => ?_⟩
    · unfold genericsAt
      split
      · exact List.Pairwise.nil
      · split
        · exact List.Pairwise.nil
        · exact hsingle _
    · -- An extension and a constructor are at different places.
      obtain ⟨hx, hxa⟩ := List.mem_filter.mp hx
      obtain ⟨hy, hya⟩ := List.mem_filter.mp hy
      obtain ⟨i, -, rfl⟩ := mem_instancesAt.mp hx
      obtain ⟨g, r, -, -, -, rfl⟩ := mem_genericsAt.mp hy
      cases (of_decide_eq_true hxa).trans (of_decide_eq_true hya).symm
  · -- The candidates of two types are at one place only if both are instances of a definition.
    apply ((hK.distinct_chain hX).and hinstances).imp_of_mem
    intro d e hd he hde x hx y hy
    obtain ⟨hx, hxa⟩ := List.mem_filter.mp hx
    obtain ⟨hy, hya⟩ := List.mem_filter.mp hy
    have hplace := (of_decide_eq_true hxa).trans (of_decide_eq_true hya).symm
    cases mem_candidatesAt.mp hx with
    | @«instance» i hi =>
        cases mem_candidatesAt.mp hy with
        | @«instance» j hj =>
            have hkey : i.target.key = j.target.key := Sum.inl.inj hplace
            rw [(hf.instance_ _ _ hi).1, (hf.instance_ _ _ hj).1] at hkey
            exact absurd hkey hde.1
        | generic => cases hplace
    | @generic g r hg hr hfailed =>
        cases mem_candidatesAt.mp hy with
        | «instance» => cases hplace
        | @generic g' r' hg' hr' hfailed' =>
            apply Claim.keeps_of_ancestor hK hP (hK.mem_chain hX hd) (hK.mem_chain hX he)
            exact hde.2 (by rw [hg]; rfl) (by rw [hg']; rfl)

/-! ## §2. The leader after a registration. -/

/-- A registration at a place that applies to the type: at its place there are now `c` and what `c`
is preferred to, and `c` is or is preferred to what was there. -/
structure Registered (f f' : Factory ε σ) (X : Descriptor) (a : Place) (c : Claim) : Prop
    extends Replaced f f' X a where
  first : ∃ ys, (f'.block X a).map (·.claim) = c :: ys
  old : ∀ x ∈ f.block X a, x.claim = c ∨ c.keeps x.claim = true

theorem Registered.mem_claims {c : Claim} (h : Registered f f' X a c) : c ∈ f'.claims X := by
  obtain ⟨ys, hys⟩ := h.first
  have hc : c ∈ (f'.block X a).map (·.claim) := by
    rw [hys]
    exact List.mem_cons_self
  obtain ⟨y, hy, rfl⟩ := List.mem_map.mp hc
  exact List.mem_map_of_mem (mem_block.mp hy).1

/-- **The new leader is found by comparing the registration with the old leader**, even where an
old registration went. -/
theorem leader?_registered (hK : Family K) (hP : Plain K) (hX : K X) (hf : Sound K f)
    (hf' : Sound K f') {c : Claim} (h : Registered f f' X a c) :
    f'.leader? X = challenge Claim.keeps (f.leader? X) c := by
  obtain ⟨before, after, hall, hrest⟩ := candidates_around hf X a
  obtain ⟨ys, hys⟩ := h.first
  have hkeeps : ((f'.block X a).map (·.claim)).Pairwise fun c d => c.keeps d = true :=
    List.pairwise_map.mpr (block_keeps hK hP hf' hX a)
  rw [hys] at hkeeps
  have hkeeps := (List.pairwise_cons.mp hkeeps).1
  -- Afterwards the others come first, and then those of the place.
  have hafter : f'.claims X = before.map (·.claim) ++ after.map (·.claim) ++ (c :: ys) := by
    unfold claims
    rw [candidates_replaced hf hf' h.toReplaced, hrest, List.map_append, hys, List.map_append]
  have hground : ∀ x ∈ f.claims X ++ f'.claims X, K x.target := by
    intro x hx
    rcases List.mem_append.mp hx with hx | hx
    · exact known_claims hK hf hX x hx
    · exact known_claims hK hf' hX x hx
  have hasym := Claim.asymmetric hK _ hground
  have htrans := Claim.transitive hK hP _ hground
  have hcy : ∀ y ∈ ys, y ∈ f.claims X ++ f'.claims X ∧ c.keeps y = true := by
    intro y hy
    refine ⟨List.mem_append_right _ ?_, hkeeps y hy⟩
    rw [hafter]
    simp [hy]
  have hc : c ∈ f.claims X ++ f'.claims X := List.mem_append_right _ h.mem_claims
  unfold leader?
  rw [hafter]
  cases hblock : f.block X a with
  | nil =>
      -- There was no old registration, so this one only comes behind.
      have hbefore : f.claims X = before.map (·.claim) ++ after.map (·.claim) := by
        unfold claims
        rw [hall, hblock, List.append_nil, List.map_append]
      rw [Preference.champion_append, ← hbefore]
      refine Preference.foldl_block htrans (fun b hb => ?_) hc hcy
      exact List.mem_append_left _ (Preference.champion_mem hb)
  | cons r xs =>
      -- The old registration goes from the middle and the new one comes to the end.
      have hbefore : f.claims X =
          before.map (·.claim) ++ (r.claim :: xs.map (·.claim)) ++ after.map (·.claim) := by
        unfold claims
        rw [hall, hblock, List.map_append, List.map_append, List.map_cons]
      have hold := block_keeps hK hP hf hX a
      rw [hblock] at hold
      rw [hbefore]
      -- The old registrations of the place and the new ones are blocks of that order.
      refine Preference.champion_replace hasym htrans (fun x hx => ?_) (fun x hx => ?_)
        (fun y hy => (hcy y hy).2) ?_
      · rcases List.mem_append.mp hx with hx | hx
        · exact List.mem_append_left _ (by rw [hbefore]; exact hx)
        · apply List.mem_append_right _
          rw [hafter]
          exact List.mem_append_right _ hx
      · obtain ⟨y, hy, rfl⟩ := List.mem_map.mp hx
        exact (List.pairwise_cons.mp hold).1 y hy
      · rcases h.old r (by rw [hblock]; exact List.mem_cons_self) with he | hk
        · exact .inl he.symm
        · exact .inr hk

/-! ## §3. Registering an extension. -/

theorem place_instance (i : InstanceEntry ε) :
    (InstanceEntry.candidate i).place = .inl i.target.key := rfl

theorem place_generic (r : GenericEntry ε) (g : TypeKey) (d : Descriptor) :
    (GenericEntry.candidate r g d).place = .inr g := rfl

theorem instancesAt_filter (hf : Sound K f) (d : Descriptor) (a : Place) :
    (f.instancesAt d).filter (fun x => x.place ≠ a) =
      if Sum.inl d.key = a then [] else f.instancesAt d := by
  have hplace : ∀ x ∈ f.instancesAt d, x.place = .inl d.key := by
    intro x hx
    obtain ⟨i, hi, rfl⟩ := mem_instancesAt.mp hx
    rw [place_instance, (hf.instance_ _ _ hi).1]
  split
  · next ha => exact List.filter_eq_nil_iff.mpr fun x hx => by simp [hplace x hx, ha]
  · next ha => exact List.filter_eq_self.mpr fun x hx => by simp [hplace x hx, ha]

theorem genericsAt_filter (f : Factory ε σ) (d : Descriptor) (a : Place) :
    (f.genericsAt d).filter (fun x => x.place ≠ a) =
      if d.definition.map (fun g => Sum.inr g.key) = some a then [] else f.genericsAt d := by
  have hplace : ∀ x ∈ f.genericsAt d, d.definition.map (fun g => Sum.inr g.key) = some x.place := by
    intro x hx
    obtain ⟨g, r, hg, -, -, rfl⟩ := mem_genericsAt.mp hx
    rw [hg, place_generic]
    rfl
  split
  · next ha =>
      apply List.filter_eq_nil_iff.mpr
      intro x hx
      have := (hplace x hx).symm.trans ha
      simp [Option.some.inj this]
  · next ha =>
      apply List.filter_eq_self.mpr
      intro x hx
      apply decide_eq_true
      intro he
      apply ha
      rw [hplace x hx, he]

/-- The candidate at the place of an extension. -/
theorem mem_block_inl (hf : Sound K f) {k : TypeKey} {x : Candidate ε} :
    x ∈ f.block X (.inl k) ↔ (∃ d ∈ X.chain, d.key = k) ∧
      ∃ i, f.instances.get? k = some i ∧ x = InstanceEntry.candidate i := by
  rw [mem_block, mem_candidates]
  constructor
  · rintro ⟨⟨d, hd, hx⟩, hplace⟩
    cases hx with
    | @«instance» i hi =>
        have hkey : i.target.key = k := Sum.inl.inj hplace
        rw [(hf.instance_ _ _ hi).1] at hkey
        rw [hkey] at hi
        exact ⟨⟨d, hd, hkey⟩, i, hi, rfl⟩
    | generic => cases hplace
  · rintro ⟨⟨d, hd, hkey⟩, i, hi, rfl⟩
    refine ⟨⟨d, hd, .instance (by rw [hkey]; exact hi)⟩, ?_⟩
    rw [place_instance, (hf.instance_ _ _ hi).1]

theorem replaced_withExtension (hf : Sound K f) {target : Descriptor} (ht : K target) (e : ε) :
    Replaced f (f.withExtension target e) X (.inl target.key) := by
  refine ⟨?_, fun d hd => ?_⟩
  · rw [number?_withExtension]
    exact if_pos rfl
  · rw [candidatesAt_eq, candidatesAt_eq, List.filter_append, List.filter_append,
      instancesAt_filter (hf.withExtension ht e), instancesAt_filter hf]
    have hgenerics : (f.withExtension target e).genericsAt d = f.genericsAt d := rfl
    rw [hgenerics]
    congr 1
    -- The table of extensions has changed at the key of the target only.
    by_cases hkey : d.key = target.key
    · rw [if_pos (congrArg Sum.inl hkey), if_pos (congrArg Sum.inl hkey)]
    · rw [if_neg fun h => hkey (Sum.inl.inj h), if_neg fun h => hkey (Sum.inl.inj h)]
      show ((((f.instances.set target.key _).get? d.key).map _).toList : List (Candidate ε)) = _
      rw [Table.get?_set, if_neg fun h => hkey h.symm]
      rfl

/-- An extension applies to the types that its target is assignable from. -/
theorem registered_withExtension (hK : Family K) (hX : K X) (hf : Sound K f) {target : Descriptor}
    (ht : K target) (e : ε) (happlies : target.isAssignableFrom X = true) :
    Registered f (f.withExtension target e) X (.inl target.key) ⟨target, false⟩ := by
  have hf' := hf.withExtension ht e
  have hget : (f.withExtension target e).instances.get? target.key =
      some ⟨target, e, f.lastSequence + 1⟩ := by
    show (f.instances.set target.key _).get? target.key = _
    rw [Table.get?_set, if_pos rfl]
  have hchain := hK.mem_chain_of_isAssignableFrom ht hX happlies
  refine ⟨replaced_withExtension hf ht e, ?_, fun x hx => .inl ?_⟩
  · have hmem := (mem_block_inl (X := X) hf').mpr ⟨⟨target, hchain, rfl⟩, _, hget, rfl⟩
    cases hblock : (f.withExtension target e).block X (.inl target.key) with
    | nil =>
        rw [hblock] at hmem
        cases hmem
    | cons x xs =>
        have hx : x ∈ (f.withExtension target e).block X (.inl target.key) := by
          rw [hblock]
          exact List.mem_cons_self
        obtain ⟨-, i, hi, rfl⟩ := (mem_block_inl hf').mp hx
        rw [hget] at hi
        cases hi
        exact ⟨_, rfl⟩
  · obtain ⟨-, i, hi, rfl⟩ := (mem_block_inl hf).mp hx
    obtain ⟨hkey, hknown⟩ := hf.instance_ _ _ hi
    show (⟨i.target, false⟩ : Claim) = _
    rw [hK.unique _ _ hknown ht hkey]

/-- An extension for another type has no candidates. -/
theorem not_mem_of_not_isAssignableFrom (hf : Sound K f) {target : Descriptor}
    (h : target.isAssignableFrom X = false) {x : Candidate ε} (hx : x.place = .inl target.key) :
    x ∉ f.candidates X := by
  intro hmem
  obtain ⟨⟨d, hd, hkey⟩, -⟩ := (mem_block_inl hf).mp (mem_block.mpr ⟨hmem, hx⟩)
  apply Bool.eq_false_iff.mp h
  unfold Descriptor.isAssignableFrom
  rw [Bool.or_eq_true, List.any_eq_true]
  rcases List.mem_cons.mp hd with rfl | hd
  · exact .inl (decide_eq_true hkey.symm)
  · exact .inr ⟨d, hd, decide_eq_true hkey⟩

/-! ## §4. Registering a constructor. -/

/-- The candidates at the place of a constructor. -/
theorem mem_block_inr {g : TypeKey} {x : Candidate ε} (hx : x ∈ f.block X (.inr g)) :
    ∃ d ∈ X.chain, (∃ h, d.definition = some h ∧ h.key = g) ∧ (g, d.key) ∉ f.failed ∧
      x.claim = ⟨d, true⟩ := by
  obtain ⟨hmem, hplace⟩ := mem_block.mp hx
  obtain ⟨d, hd, hx⟩ := mem_candidates.mp hmem
  cases hx with
  | «instance» => cases hplace
  | @generic h r hg hr hfailed =>
      have hkey : h.key = g := Sum.inr.inj hplace
      rw [hkey] at hfailed
      exact ⟨d, hd, ⟨h, hg, hkey⟩, hfailed, rfl⟩

/-- The first instance of a definition in a chain comes before the others, its ancestors. -/
theorem closedIn?_first (hK : Family K) (hP : Plain K) (hX : K X) {g : TypeKey} {d₁ d : Descriptor}
    (h : closedIn? g X = some d₁) (hd : d ∈ X.chain) (hg : ∃ h, d.definition = some h ∧ h.key = g) :
    d = d₁ ∨ Ancestor d d₁ := by
  obtain ⟨h', hdef, hkey⟩ := hg
  obtain ⟨-, h₁, hdef₁, -⟩ := closedIn?_mem h
  obtain ⟨-, as, bs, hchain, has⟩ := List.find?_eq_some_iff_append.mp h
  have hinstances := List.pairwise_filter.mp (hK.instances_chain hP hX)
  rw [hchain] at hinstances hd
  rcases List.mem_append.mp hd with hd | hd
  · -- Before the first instance there is none.
    have hnot := has d hd
    rw [hdef] at hnot
    simp [hkey] at hnot
  · rcases List.mem_cons.mp hd with rfl | hd
    · exact .inl rfl
    · refine .inr ?_
      have hcons := (List.pairwise_append.mp hinstances).2.1
      exact (List.pairwise_cons.mp hcons).1 d hd (by rw [hdef₁]; rfl) (by rw [hdef]; rfl)

/-- The first instance is preferred to what the constructor makes for the others. -/
theorem first_prefers (hK : Family K) (hP : Plain K) (hX : K X) {g : TypeKey} {d₁ : Descriptor}
    (h : closedIn? g X = some d₁) {x : Candidate ε} (hx : x ∈ f.block X (.inr g)) :
    x.claim = ⟨d₁, true⟩ ∨ Claim.keeps ⟨d₁, true⟩ x.claim = true := by
  obtain ⟨d, hd, hg, -, hclaim⟩ := mem_block_inr hx
  rw [hclaim]
  rcases closedIn?_first hK hP hX h hd hg with rfl | hancestor
  · exact .inl rfl
  · exact .inr (Claim.keeps_of_ancestor hK hP (hK.mem_chain hX (closedIn?_mem h).1)
      (hK.mem_chain hX hd) hancestor)

/-- A definition without instances in the chain has no candidates. -/
theorem not_mem_of_closedIn?_eq_none {g : TypeKey} (h : closedIn? g X = none) {x : Candidate ε}
    (hx : x.place = .inr g) : x ∉ f.candidates X := by
  intro hmem
  obtain ⟨d, hd, ⟨g', hg, hkey⟩, -⟩ := mem_block_inr (mem_block.mpr ⟨hmem, hx⟩)
  have hnot := List.find?_eq_none.mp h d hd
  rw [hg] at hnot
  simp [hkey] at hnot

variable {definition : Descriptor} {c : Constructor ε}

/-- What the visits of a registration of a constructor change. -/
theorem replaced_withConstructor
    (h : Worked (· = definition.key) (f.withConstructor definition c) f') :
    Replaced f f' X (.inr definition.key) := by
  refine ⟨?_, fun d hd => ?_⟩
  · have hnumber : f'.number? = (f.withConstructor definition c).number? := by rw [h.eq]; rfl
    rw [hnumber, number?_withConstructor]
    exact if_pos rfl
  · have hinstances : f'.instancesAt d = f.instancesAt d := by rw [h.eq]; rfl
    rw [candidatesAt_eq, candidatesAt_eq, List.filter_append, List.filter_append, hinstances,
      genericsAt_filter, genericsAt_filter]
    congr 1
    split
    · rfl
    · next hplace =>
        unfold genericsAt
        cases hg : d.definition with
        | none => rfl
        | some g =>
            have hkey : definition.key ≠ g.key := by
              intro hkey
              rw [hg] at hplace
              exact hplace (congrArg (fun k => some (Sum.inr k)) hkey.symm)
            -- Only the constructor that was registered is run.
            have hfailed : (g.key, d.key) ∈ f'.failed ↔ (g.key, d.key) ∈ f.failed := by
              constructor
              · intro hmem
                rcases h.only _ hmem with hmem | honly
                · exact (mem_failed_withConstructor.mp hmem).1
                · exact absurd honly.symm hkey
              · intro hmem
                exact h.failed _ (mem_failed_withConstructor.mpr ⟨hmem, fun he => hkey he.symm⟩)
            dsimp only
            simp only [hfailed, h.generics, generics_withConstructor, if_neg hkey]

/-- A constructor applies to a type if it was not set aside for the first instance of its
definition. -/
theorem registered_withConstructor (hK : Family K) (hP : Plain K) (hX : K X) (hf' : Sound K f')
    (h : Worked (· = definition.key) (f.withConstructor definition c) f') {d₁ : Descriptor}
    (hclosed : closedIn? definition.key X = some d₁)
    (hfailed : (definition.key, d₁.key) ∉ f'.failed) :
    Registered f f' X (.inr definition.key) ⟨d₁, true⟩ := by
  refine ⟨replaced_withConstructor h, ?_, fun x hx => first_prefers hK hP hX hclosed hx⟩
  obtain ⟨hd₁, g, hdef, hkey⟩ := closedIn?_mem hclosed
  have hget : f'.generics.get? g.key = some ⟨definition, c, f.lastSequence + 1⟩ := by
    rw [hkey]
    exact get?_withConstructor h
  -- It is a candidate for the first instance, and what stands first at the place.
  have hmem : GenericEntry.candidate ⟨definition, c, f.lastSequence + 1⟩ g.key d₁ ∈
      f'.block X (.inr definition.key) := by
    refine mem_block.mpr ⟨mem_candidates.mpr ⟨d₁, hd₁, .generic hdef hget ?_⟩, ?_⟩
    · rw [hkey]
      exact hfailed
    · rw [place_generic, hkey]
  have hkeeps := block_keeps hK hP hf' hX (.inr definition.key)
  cases hblock : f'.block X (.inr definition.key) with
  | nil =>
      rw [hblock] at hmem
      cases hmem
  | cons x xs =>
      rw [hblock] at hmem hkeeps
      have hx : x ∈ f'.block X (.inr definition.key) := by
        rw [hblock]
        exact List.mem_cons_self
      rcases first_prefers hK hP hX hclosed hx with hclaim | hprefers
      · exact ⟨_, congrArg₂ List.cons hclaim rfl⟩
      · rcases List.mem_cons.mp hmem with rfl | hmem
        · exact ⟨_, rfl⟩
        · -- The candidate for the first instance cannot come behind another one.
          have hxK := known_claims hK hf' hX _ (List.mem_map_of_mem (mem_block.mp hx).1)
          have hd₁K := hK.mem_chain hX hd₁
          have hbehind := (List.pairwise_cons.mp hkeeps).1 _ hmem
          have hlt := (Claim.keeps_iff hK hd₁K hxK).mp hprefers
          exact absurd ((Claim.keeps_iff hK hxK hd₁K).mp hbehind) (hlt.asymm hK hd₁K hxK)

/-! ## §5. Answers after a registration. -/

/-- The place of the registration with a claim. -/
def claimPlace? (c : Claim) : Option Place :=
  if c.generic then c.target.definition.map fun g => .inr g.key else some (.inl c.target.key)

theorem claimPlace?_of_mem {x : Candidate ε} (hx : x ∈ f.candidates X) :
    claimPlace? x.claim = some x.place := by
  obtain ⟨d, -, hx⟩ := mem_candidates.mp hx
  cases hx with
  | «instance» => rfl
  | @generic g r hg hr hfailed =>
      show d.definition.map (fun g => Sum.inr g.key) = _
      rw [hg]
      rfl

theorem supplied?_withExtension {target : Descriptor} {e : ε} {c : Claim}
    (hc : claimPlace? c ≠ some (.inl target.key)) :
    (f.withExtension target e).supplied? c = f.supplied? c := by
  unfold supplied?
  split
  · rfl
  · next hgeneric =>
      have hkey : target.key ≠ c.target.key := by
        intro hkey
        apply hc
        unfold claimPlace?
        rw [if_neg hgeneric, hkey]
      show ((f.instances.set target.key _).get? c.target.key).map (·.extension) = _
      rw [Table.get?_set, if_neg hkey]

theorem supplied?_withConstructor {definition : Descriptor} {k : Constructor ε} {c : Claim}
    (hc : claimPlace? c ≠ some (.inr definition.key)) :
    (f.withConstructor definition k).supplied? c = f.supplied? c := by
  unfold supplied?
  split
  · next hgeneric =>
      cases hg : c.target.definition with
      | none => rfl
      | some g =>
          have hkey : definition.key ≠ g.key := by
            intro hkey
            apply hc
            unfold claimPlace?
            rw [if_pos hgeneric, hg, hkey]
            rfl
          dsimp only
          rw [generics_withConstructor, if_neg hkey]
          rfl
  · rfl

/-- The leader is one of the candidates. -/
theorem leader?_mem {c : Claim} (h : f.leader? X = some c) : ∃ x ∈ f.candidates X, x.claim = c :=
  List.mem_map.mp (Preference.champion_mem h)

variable {r : Resolved ε}

/-- The type is given the same answer by both factories. -/
structure SameAnswer (X : Descriptor) (f f' : Factory ε σ) : Prop where
  leader : f'.leader? X = f.leader? X
  supplied : ∀ c, f.leader? X = some c → f'.supplied? c = f.supplied? c

theorem InSync.same (hr : InSync f X r) (h : SameAnswer X f f') : InSync f' X r := by
  refine ⟨by rw [h.leader]; exact hr.source, fun c hc => ?_⟩
  rw [h.supplied c (hr.source.symm.trans hc)]
  exact hr.extension c hc

/-- An answer that is in sync with both. -/
theorem InSync.sameAnswer (hr : InSync f X r) (hr' : InSync f' X r) : SameAnswer X f f' := by
  refine ⟨hr'.source.symm.trans hr.source, fun c hc => ?_⟩
  have hsource := hr.source.trans hc
  rw [hr.extension c hsource, hr'.extension c hsource]

/-- A place without candidates does not matter for the answer. -/
theorem sameAnswer_of_untouched (hf : Sound K f) (hf' : Sound K f') (h : Replaced f f' X a)
    (hnone : ∀ x, x.place = a → x ∉ f.candidates X ∧ x ∉ f'.candidates X)
    (hsupplied : ∀ c, claimPlace? c ≠ some a → f'.supplied? c = f.supplied? c) :
    SameAnswer X f f' := by
  refine ⟨?_, fun c hc => hsupplied c fun hplace => ?_⟩
  · unfold leader? claims
    rw [candidates_untouched hf hf' h hnone]
  · obtain ⟨x, hx, rfl⟩ := leader?_mem hc
    exact (hnone x (Option.some.inj ((claimPlace?_of_mem hx).symm.trans hplace))).1 hx

/-- **An answer that a registration does not override stays in sync.** -/
theorem InSync.kept (hK : Family K) (hP : Plain K) (hX : K X) (hf : Sound K f) (hf' : Sound K f')
    {c : Claim} (h : Registered f f' X a c) (hr : InSync f X r) (hc : c.overrides r.source = false)
    (hsupplied : ∀ c', claimPlace? c' ≠ some a → f'.supplied? c' = f.supplied? c') :
    InSync f' X r := by
  have hleader : f'.leader? X = f.leader? X := by
    rw [leader?_registered hK hP hX hf hf' h, Claim.challenge_eq, ← hr.source, hc]
    rfl
  refine ⟨by rw [hleader]; exact hr.source, fun c' hc' => ?_⟩
  rw [hsupplied c' fun hplace => ?_]
  · exact hr.extension c' hc'
  · -- A leader at the place would be overridden.
    obtain ⟨x, hx, rfl⟩ := leader?_mem (hr.source.symm.trans hc')
    have hxa : x.place = a := Option.some.inj ((claimPlace?_of_mem hx).symm.trans hplace)
    have hcK := known_claims hK hf' hX c h.mem_claims
    have hxK := known_claims hK hf hX _ (List.mem_map_of_mem hx)
    have hkept : x.claim.keeps c = true := by
      rw [hc'] at hc
      show (!c.overrides (some x.claim)) = true
      rw [hc]
      rfl
    have hlt := (Claim.keeps_iff hK hxK hcK).mp hkept
    rcases h.old x (mem_block.mpr ⟨hx, hxa⟩) with he | hk
    · rw [he] at hlt
      exact hlt.asymm hK hcK hcK hlt
    · exact hlt.asymm hK hxK hcK ((Claim.keeps_iff hK hcK hxK).mp hk)

/-- **A registration that overrides the answer is the new answer.** -/
theorem InSync.overridden (hK : Family K) (hP : Plain K) (hX : K X) (hf : Sound K f)
    (hf' : Sound K f') {c : Claim} (h : Registered f f' X a c) (hr : InSync f X r)
    (hc : c.overrides r.source = true) {e : ε} (he : f'.supplied? c = some e) :
    InSync f' X ⟨e, some c⟩ := by
  refine ⟨?_, fun c' hc' => ?_⟩
  · rw [leader?_registered hK hP hX hf hf' h, Claim.challenge_eq, ← hr.source, hc]
    rfl
  · cases hc'
    exact he

/-- **The answer after an extension was registered**: it takes the place of the old answer if it
applies to the type and overrides that, and otherwise the answer stays. -/
theorem InSync.withExtension (hK : Family K) (hP : Plain K) (hX : K X) (hf : Sound K f)
    (hr : InSync f X r) {target : Descriptor} (ht : K target) (e : ε) :
    InSync (f.withExtension target e) X
      (if target.isAssignableFrom X && Claim.overrides ⟨target, false⟩ r.source then
        ⟨e, some ⟨target, false⟩⟩ else r) := by
  have hf' := hf.withExtension ht e
  cases happlies : target.isAssignableFrom X with
  | false =>
      rw [Bool.false_and, if_neg Bool.false_ne_true]
      exact hr.same (sameAnswer_of_untouched hf hf' (replaced_withExtension hf ht e)
        (fun x hx => ⟨not_mem_of_not_isAssignableFrom hf happlies hx,
          not_mem_of_not_isAssignableFrom hf' happlies hx⟩) fun _ => supplied?_withExtension)
  | true =>
      have hregistered := registered_withExtension hK hX hf ht e happlies
      rw [Bool.true_and]
      split
      · next hc =>
          apply hr.overridden hK hP hX hf hf' hregistered hc
          show ((f.instances.set target.key _).get? target.key).map (·.extension) = some e
          rw [Table.get?_set, if_pos rfl]
          rfl
      · next hc =>
          exact hr.kept hK hP hX hf hf' hregistered (Bool.eq_false_iff.mpr hc)
            fun _ => supplied?_withExtension

end Factory
end ValueText
