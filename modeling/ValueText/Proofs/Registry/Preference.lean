/-
  ValueText.Proofs.Registry.Preference — folding over registrations.

  The winner of a resolution is found by a fold: a later registration takes the
  place of the best one so far unless that is preferred to it.  Registrations that
  have nothing to do with each other replace each other, so the fold depends on the
  order, and the most specific registration need not win.

  Main results, for a preference that is a strict order:

    • `champion_eq`          the most preferred one is the champion, if there is one;
    • `champion_displaced`   if the champion is not the most preferred, another one
                             came between the two;
    • `champion_replace`     moving a registration to the end of the order has the same
                             effect as comparing it with the champion once more;
    • `champion_exchange`    neighbours of which one is preferred to the other may be
                             exchanged;

  and for any preference:

    • `champion_leaving`     which of those that fail are left out does not matter, unless
                             one of them comes between two others.
-/
import Mathlib.Data.List.Induction

namespace ValueText

/-! ## §1. The champion of a list. -/

namespace Preference

variable {α : Type} {keeps : α → α → Bool}

/-- The later one takes the place unless the best one so far `keeps` it. -/
def challenge (keeps : α → α → Bool) (best : Option α) (a : α) : Option α :=
  match best with
  | none => some a
  | some b => if keeps b a then some b else some a

/-- The one that is left after all have come. -/
def champion (keeps : α → α → Bool) (as : List α) : Option α := as.foldl (challenge keeps) none

theorem challenge_kept {b a : α} (h : keeps b a = true) : challenge keeps (some b) a = some b := by
  rw [challenge, if_pos h]

theorem challenge_displaced {b a : α} (h : keeps b a = false) :
    challenge keeps (some b) a = some a := by
  rw [challenge, if_neg (by rw [h]; exact Bool.false_ne_true)]

theorem champion_append (as bs : List α) :
    champion keeps (as ++ bs) = bs.foldl (challenge keeps) (champion keeps as) :=
  List.foldl_append ..

theorem champion_snoc (as : List α) (a : α) :
    champion keeps (as ++ [a]) = challenge keeps (champion keeps as) a := champion_append as [a]

/-- The champion is the last, or it was the champion before and keeps its place. -/
theorem champion_snoc_cases {as : List α} {a s : α} (h : champion keeps (as ++ [a]) = some s) :
    champion keeps as = some s ∧ keeps s a = true ∨
      s = a ∧ ∀ b, champion keeps as = some b → keeps b a = false := by
  rw [champion_snoc] at h
  unfold challenge at h
  split at h
  · next hn =>
      cases h
      refine .inr ⟨rfl, fun b hb => ?_⟩
      rw [hn] at hb
      cases hb
  · next b hb =>
      split at h
      · next hk => cases h; exact .inl ⟨hb, hk⟩
      · next hk =>
          cases h
          refine .inr ⟨rfl, fun b' hb' => ?_⟩
          rw [hb] at hb'
          cases hb'
          exact Bool.eq_false_iff.mpr hk

/-- The champion of images is the image of the champion. -/
theorem champion_map {β : Type} {g : β → α} (bs : List β) :
    champion keeps (bs.map g) = (champion (fun a b => keeps (g a) (g b)) bs).map g := by
  induction bs using List.reverseRecOn with
  | nil => rfl
  | append_singleton bs b ih =>
      rw [List.map_append, List.map_singleton, champion_snoc, champion_snoc, ih]
      unfold challenge
      cases champion (fun a b => keeps (g a) (g b)) bs with
      | none => rfl
      | some a =>
          show (if keeps (g a) (g b) then some (g a) else some (g b)) = _
          cases hk : keeps (g a) (g b) with
          | true => simp [hk]
          | false => simp [hk]

theorem champion_mem {as : List α} {s : α} (h : champion keeps as = some s) : s ∈ as := by
  induction as using List.reverseRecOn with
  | nil => cases h
  | append_singleton as a ih =>
      rcases champion_snoc_cases h with ⟨h, -⟩ | ⟨rfl, -⟩
      · exact List.mem_append_left _ (ih h)
      · exact List.mem_append_right _ (List.mem_singleton.mpr rfl)

theorem champion_eq_none {as : List α} (h : champion keeps as = none) : as = [] := by
  cases as using List.reverseRecOn with
  | nil => rfl
  | append_singleton as a =>
      rw [champion_snoc] at h
      unfold challenge at h
      split at h
      · cases h
      · split at h <;> cases h

/-- The champion came after everyone else, or it keeps its place before those that came
later. -/
theorem champion_place {as : List α} {s r : α} (h : champion keeps as = some s) (hr : r ∈ as) :
    r = s ∨ [r, s].Sublist as ∨ [s, r].Sublist as ∧ keeps s r = true := by
  induction as using List.reverseRecOn with
  | nil => cases h
  | append_singleton as a ih =>
      have hend {x : α} (hx : x ∈ as) : [x, a].Sublist (as ++ [a]) :=
        List.Sublist.append (List.singleton_sublist.mpr hx) (List.Sublist.refl _)
      have hleft : as.Sublist (as ++ [a]) := List.sublist_append_left _ _
      rcases champion_snoc_cases h with ⟨h, hk⟩ | ⟨rfl, -⟩
      · -- The champion is the old one, and keeps its place before the last.
        rcases List.mem_append.mp hr with hr | hr
        · rcases ih h hr with he | hs | ⟨hs, hk⟩
          · exact .inl he
          · exact .inr (.inl (hs.trans hleft))
          · exact .inr (.inr ⟨hs.trans hleft, hk⟩)
        · rw [List.mem_singleton.mp hr]
          exact .inr (.inr ⟨hend (champion_mem h), hk⟩)
      · rcases List.mem_append.mp hr with hr | hr
        · exact .inr (.inl (hend hr))
        · exact .inl (List.mem_singleton.mp hr)

/-! ## §2. Champions that are not the most preferred. -/

/-- Two of the list do not keep each other. -/
def Asymmetric (keeps : α → α → Bool) (as : List α) : Prop :=
  ∀ a ∈ as, ∀ b ∈ as, keeps a b = true → keeps b a = false

/-- What one of the list keeps, the one that keeps it keeps as well. -/
def Transitive (keeps : α → α → Bool) (as : List α) : Prop :=
  ∀ a ∈ as, ∀ b ∈ as, ∀ c ∈ as, keeps a b = true → keeps b c = true → keeps a c = true

theorem Asymmetric.irrefl {as : List α} (h : Asymmetric keeps as) {a : α} (ha : a ∈ as) :
    keeps a a = false := by
  cases hk : keeps a a with
  | false => rfl
  | true => exact hk.symm.trans (h a ha a ha hk)

theorem Asymmetric.left {as bs : List α} (h : Asymmetric keeps (as ++ bs)) :
    Asymmetric keeps as :=
  fun a ha b hb => h a (List.mem_append_left _ ha) b (List.mem_append_left _ hb)

theorem Transitive.left {as bs : List α} (h : Transitive keeps (as ++ bs)) :
    Transitive keeps as :=
  fun a ha b hb c hc => h a (List.mem_append_left _ ha) b (List.mem_append_left _ hb) c
    (List.mem_append_left _ hc)

/-- One that keeps the last is not the last. -/
theorem mem_of_keeps_last {as : List α} {a r : α} (h : Asymmetric keeps (as ++ [a]))
    (hr : r ∈ as ++ [a]) (hk : keeps r a = true) : r ∈ as := by
  rcases List.mem_append.mp hr with hr' | hr'
  · exact hr'
  · rw [List.mem_singleton.mp hr'] at hr hk
    rw [h.irrefl hr] at hk
    cases hk

/-- One that keeps what keeps the last is not the last, either. -/
theorem mem_of_keeps_keeper {as : List α} {a r s : α} (h : Asymmetric keeps (as ++ [a]))
    (hs : s ∈ as ++ [a]) (hsa : keeps s a = true) (hr : r ∈ as ++ [a]) (hk : keeps r s = true) :
    r ∈ as := by
  rcases List.mem_append.mp hr with hr' | hr'
  · exact hr'
  · rw [List.mem_singleton.mp hr'] at hr hk
    rw [h a hr s hs hk] at hsa
    cases hsa

/-- **The most preferred one is the champion**, wherever it comes. -/
theorem champion_eq {as : List α} {r : α} (hr : r ∈ as)
    (hbest : ∀ t ∈ as, t = r ∨ keeps r t = true ∧ keeps t r = false) :
    champion keeps as = some r := by
  induction as using List.reverseRecOn with
  | nil => cases hr
  | append_singleton as a ih =>
      have hrest : ∀ t ∈ as, t = r ∨ keeps r t = true ∧ keeps t r = false :=
        fun t ht => hbest t (List.mem_append_left _ ht)
      rw [champion_snoc]
      by_cases hra : r ∈ as
      · -- It has come already, and keeps its place.
        rw [ih hra hrest]
        rcases hbest a (List.mem_append_right _ (List.mem_singleton.mpr rfl)) with rfl | ⟨hk, -⟩
        · exact ite_self _
        · exact challenge_kept hk
      · rcases List.mem_append.mp hr with hr | hr
        · exact absurd hr hra
        · -- It comes last, and takes the place of whoever was the champion before.
          rw [← List.mem_singleton.mp hr]
          cases hb : champion keeps as with
          | none => rfl
          | some b =>
              have hbm := champion_mem hb
              rcases hrest b hbm with rfl | ⟨-, hk⟩
              · exact absurd hbm hra
              · exact challenge_displaced hk

/-- **The champion displaced another one** if it is not preferred to `r`, which would keep
its place before it: one that came after `r`, or one before that keeps `r`. -/
theorem champion_displaced {as : List α} (hasym : Asymmetric keeps as) {s r : α}
    (h : champion keeps as = some s) (hr : r ∈ as) (hk : keeps r s = true) :
    ∃ t, keeps t s = false ∧
      ([r, t, s].Sublist as ∨ [t, r, s].Sublist as ∧ keeps t r = true) := by
  induction as using List.reverseRecOn with
  | nil => cases h
  | append_singleton as a ih =>
      have hleft : as.Sublist (as ++ [a]) := List.sublist_append_left _ _
      have hs := champion_mem h
      rcases champion_snoc_cases h with ⟨h, hka⟩ | ⟨rfl, hdisplaced⟩
      · obtain ⟨t, ht, hsub⟩ := ih hasym.left h (mem_of_keeps_keeper hasym hs hka hr hk)
        exact ⟨t, ht, hsub.imp (·.trans hleft) fun h => ⟨h.1.trans hleft, h.2⟩⟩
      · -- The one that the champion displaced is the one to look for.
        have hra := mem_of_keeps_last hasym hr hk
        cases hb : champion keeps as with
        | none =>
            rw [champion_eq_none hb] at hra
            cases hra
        | some b =>
            have hbs := hdisplaced b hb
            refine ⟨b, hbs, ?_⟩
            rcases champion_place hb hra with rfl | hsub | ⟨hsub, hbr⟩
            · rw [hbs] at hk
              cases hk
            · exact .inl (hsub.append (List.Sublist.refl [s]))
            · exact .inr ⟨hsub.append (List.Sublist.refl [s]), hbr⟩

/-- **Between `r` and the champion came one that has nothing to do with `r`**, if `r` would
keep its place before the champion. -/
theorem champion_hidden {as : List α} (hasym : Asymmetric keeps as)
    (htrans : Transitive keeps as) {s r : α} (h : champion keeps as = some s) (hr : r ∈ as)
    (hk : keeps r s = true) :
    ∃ t, keeps r t = false ∧ keeps t r = false ∧ [r, t, s].Sublist as := by
  induction as using List.reverseRecOn generalizing s with
  | nil => cases h
  | append_singleton as a ih =>
      have hleft : as.Sublist (as ++ [a]) := List.sublist_append_left _ _
      have hs := champion_mem h
      rcases champion_snoc_cases h with ⟨h, hka⟩ | ⟨rfl, hdisplaced⟩
      · have hra := mem_of_keeps_keeper hasym hs hka hr hk
        obtain ⟨t, hrt, htr, hsub⟩ := ih hasym.left htrans.left h hra hk
        exact ⟨t, hrt, htr, hsub.trans hleft⟩
      · have hra := mem_of_keeps_last hasym hr hk
        cases hb : champion keeps as with
        | none =>
            rw [champion_eq_none hb] at hra
            cases hra
        | some b =>
            have hbs := hdisplaced b hb
            have hbm := champion_mem hb
            -- Otherwise `b` would have kept its place before `s` as well.
            have hbr : keeps b r = false := by
              apply Bool.eq_false_iff.mpr
              intro hbr
              rw [htrans b (hleft.subset hbm) r hr s hs hbr hk] at hbs
              cases hbs
            by_cases hrb : keeps r b = true
            · -- `b` displaced it in its turn, so there is one before `b`.
              obtain ⟨t, hrt, htr, hsub⟩ := ih hasym.left htrans.left hb hra hrb
              have hrt' : [r, t].Sublist as :=
                (List.Sublist.cons_cons r (List.Sublist.cons_cons t (List.nil_sublist _))).trans hsub
              exact ⟨t, hrt, htr, hrt'.append (List.Sublist.refl [s])⟩
            · rcases champion_place hb hra with rfl | hsub | ⟨-, hbr'⟩
              · rw [hbs] at hk
                cases hk
              · exact ⟨b, Bool.eq_false_iff.mpr hrb, hbr, hsub.append (List.Sublist.refl [s])⟩
              · rw [hbr] at hbr'
                cases hbr'

/-! ## §3. Moving one to the end. -/

theorem foldl_kept {best : α} {xs : List α} (h : ∀ x ∈ xs, keeps best x = true) :
    xs.foldl (challenge keeps) (some best) = some best := by
  induction xs with
  | nil => rfl
  | cons x xs ih =>
      rw [List.foldl_cons, challenge_kept (h x List.mem_cons_self)]
      exact ih fun y hy => h y (List.mem_cons_of_mem _ hy)

theorem challenge_mem {ground : List α} {best : Option α} {b x : α}
    (hb : ∀ y, best = some y → y ∈ ground) (hbg : b ∈ ground)
    (h : challenge keeps best b = some x) : x ∈ ground := by
  unfold challenge at h
  split at h
  · cases h; exact hbg
  · split at h
    · cases h; exact hb _ rfl
    · cases h; exact hbg

section Moving

variable {ground : List α} (hasym : Asymmetric keeps ground) (htrans : Transitive keeps ground)

include htrans in
/-- Of several in a row, the first of which keeps the others, only the first counts. -/
theorem foldl_block {best : Option α} {r : α} {xs : List α} (hb : ∀ b, best = some b → b ∈ ground)
    (hr : r ∈ ground) (hxs : ∀ x ∈ xs, x ∈ ground ∧ keeps r x = true) :
    (r :: xs).foldl (challenge keeps) best = challenge keeps best r := by
  rw [List.foldl_cons]
  cases best with
  | none => exact foldl_kept fun x hx => (hxs x hx).2
  | some b =>
      cases hbr : keeps b r with
      | true =>
          rw [challenge_kept hbr]
          exact foldl_kept fun x hx => htrans b (hb b rfl) r hr x (hxs x hx).1 hbr (hxs x hx).2
      | false =>
          rw [challenge_displaced hbr]
          exact foldl_kept fun x hx => (hxs x hx).2

/-- How two folds stand to each other of which only the first has met `r`: they agree, or `r`
leads the first, or the second has one that keeps its place before the first. -/
inductive Apart (keeps : α → α → Bool) (r : α) : Option α → Option α → Prop
  | same (best : Option α) : Apart keeps r best best
  | leads (v? : Option α) (h : ∀ v, v? = some v → keeps v r = false) : Apart keeps r (some r) v?
  | behind (u v : α) (huv : keeps v u = true) (hvr : keeps v r = false) :
      Apart keeps r (some u) (some v)

include hasym htrans in
theorem Apart.step {r b : α} {u? v? : Option α} (h : Apart keeps r u? v?)
    (hr : r ∈ ground) (hb : b ∈ ground) (hu : ∀ u, u? = some u → u ∈ ground)
    (hv : ∀ v, v? = some v → v ∈ ground) :
    Apart keeps r (challenge keeps u? b) (challenge keeps v? b) := by
  cases h with
  | same best => exact .same _
  | leads v? h =>
      cases hrb : keeps r b with
      | true =>
          -- `r` stays in the lead; whoever leads the other fold does not keep `r`.
          rw [challenge_kept hrb]
          refine .leads _ fun x hx => ?_
          cases v? with
          | none => cases hx; exact hasym r hr b hb hrb
          | some v =>
              cases hvb : keeps v b with
              | true => rw [challenge_kept hvb] at hx; cases hx; exact h _ rfl
              | false => rw [challenge_displaced hvb] at hx; cases hx; exact hasym r hr b hb hrb
      | false =>
          rw [challenge_displaced hrb]
          cases v? with
          | none => exact .same _
          | some v =>
              cases hvb : keeps v b with
              | true => rw [challenge_kept hvb]; exact .behind b v hvb (h v rfl)
              | false => rw [challenge_displaced hvb]; exact .same _
  | behind u v huv hvr =>
      cases hub : keeps u b with
      | true =>
          -- What `u` keeps, `v` keeps as well.
          have hvb := htrans v (hv v rfl) u (hu u rfl) b hb huv hub
          rw [challenge_kept hub, challenge_kept hvb]
          exact .behind u v huv hvr
      | false =>
          rw [challenge_displaced hub]
          cases hvb : keeps v b with
          | true => rw [challenge_kept hvb]; exact .behind b v hvb hvr
          | false => rw [challenge_displaced hvb]; exact .same _

include hasym htrans in
theorem Apart.foldl {r : α} (hr : r ∈ ground) (bs : List α) : ∀ {u? v? : Option α},
    Apart keeps r u? v? → (∀ b ∈ bs, b ∈ ground) → (∀ u, u? = some u → u ∈ ground) →
    (∀ v, v? = some v → v ∈ ground) →
    Apart keeps r (bs.foldl (challenge keeps) u?) (bs.foldl (challenge keeps) v?) := by
  induction bs with
  | nil => intro u? v? h _ _ _; exact h
  | cons b bs ih =>
      intro u? v? h hbs hu hv
      have hb := hbs b List.mem_cons_self
      exact ih (h.step hasym htrans hr hb hu hv) (fun x hx => hbs x (List.mem_cons_of_mem _ hx))
        (fun u => challenge_mem hu hb) fun v => challenge_mem hv hb

include hasym htrans in
/-- One that is `r`, or is preferred to it, ends the difference. -/
theorem Apart.rejoin {r c : α} {u? v? : Option α} (h : Apart keeps r u? v?)
    (hr : r ∈ ground) (hc : c ∈ ground) (hrc : c = r ∨ keeps c r = true)
    (hu : ∀ u, u? = some u → u ∈ ground) (hv : ∀ v, v? = some v → v ∈ ground) :
    challenge keeps v? c = challenge keeps u? c := by
  -- Who does not keep `r` does not keep what is preferred to it.
  have hkept {v : α} (hvg : v ∈ ground) (hvr : keeps v r = false) : keeps v c = false := by
    apply Bool.eq_false_iff.mpr
    intro hvc
    rcases hrc with rfl | hcr
    · rw [hvc] at hvr
      cases hvr
    · rw [htrans v hvg c hc r hr hvc hcr] at hvr
      cases hvr
  cases h with
  | same best => rfl
  | leads v? h =>
      rw [challenge_displaced (hkept hr (hasym.irrefl hr))]
      cases v? with
      | none => rfl
      | some v => rw [challenge_displaced (hkept (hv v rfl) (h v rfl))]
  | behind u v huv hvr =>
      have hvc := hkept (hv v rfl) hvr
      have huc : keeps u c = false := by
        apply Bool.eq_false_iff.mpr
        intro huc
        rw [htrans v (hv v rfl) u (hu u rfl) c hc huv huc] at hvc
        cases hvc
      rw [challenge_displaced hvc, challenge_displaced huc]

include hasym htrans in
/-- **Moving `r` to the end, as `r` itself or as one that is preferred to it, is comparing
it with the champion once more.** -/
theorem champion_replace {before after xs ys : List α} {r c : α}
    (hg : ∀ x ∈ before ++ (r :: xs) ++ after ++ (c :: ys), x ∈ ground)
    (hxs : ∀ x ∈ xs, keeps r x = true) (hys : ∀ y ∈ ys, keeps c y = true)
    (hrc : c = r ∨ keeps c r = true) :
    champion keeps (before ++ after ++ (c :: ys)) =
      challenge keeps (champion keeps (before ++ (r :: xs) ++ after)) c := by
  have hmem {as : List α} (has : ∀ x ∈ as, x ∈ ground) (x : α)
      (hx : champion keeps as = some x) : x ∈ ground := has x (champion_mem hx)
  have hr : r ∈ ground := hg r (by simp)
  have hc : c ∈ ground := hg c (by simp)
  have hbefore := hmem fun x (hx : x ∈ before) => hg x (by simp [hx])
  have hrest := hmem fun x (hx : x ∈ before ++ after) => hg x (by
    rcases List.mem_append.mp hx with hx | hx <;> simp [hx])
  have hall := hmem fun x (hx : x ∈ before ++ (r :: xs) ++ after) =>
    hg x (List.mem_append_left _ hx)
  have hwith := hmem fun x (hx : x ∈ before ++ (r :: xs)) =>
    hg x (List.mem_append_left _ (List.mem_append_left _ hx))
  have hblock : champion keeps (before ++ (r :: xs)) = challenge keeps (champion keeps before) r := by
    rw [champion_append]
    exact foldl_block htrans hbefore hr fun x hx => ⟨hg x (by simp [hx]), hxs x hx⟩
  have hfirst : Apart keeps r (champion keeps (before ++ (r :: xs))) (champion keeps before) := by
    rw [hblock]
    cases hb : champion keeps before with
    | none => exact .leads _ fun v hv => by cases hv
    | some b =>
        cases hbr : keeps b r with
        | true => rw [challenge_kept hbr]; exact .same _
        | false =>
            rw [challenge_displaced hbr]
            exact .leads _ fun v hv => by cases hv; exact hbr
  -- The folds stay apart until `c` comes, and it ends the difference.
  have hlast := hfirst.foldl hasym htrans hr after (fun x hx => hg x (by simp [hx])) hwith hbefore
  rw [← champion_append, ← champion_append] at hlast
  rw [champion_append,
    foldl_block htrans hrest hc fun y hy => ⟨hg y (by simp [hy]), hys y hy⟩]
  exact hlast.rejoin hasym htrans hr hc hrc hall hrest

/-! ## §4. Exchanging neighbours. -/

include hasym htrans in
theorem challenge_left_comm {best : Option α} {a b : α} (hb : ∀ y, best = some y → y ∈ ground)
    (ha : a ∈ ground) (hbg : b ∈ ground) (hk : keeps a b = true) :
    challenge keeps (challenge keeps best a) b = challenge keeps (challenge keeps best b) a := by
  have hba := hasym a ha b hbg hk
  cases best with
  | none =>
      show challenge keeps (some a) b = challenge keeps (some b) a
      rw [challenge_kept hk, challenge_displaced hba]
  | some c =>
      have hc := hb c rfl
      cases hca : keeps c a with
      | true =>
          -- What `a` keeps, `c` keeps as well, so neither of the two takes its place.
          have hcb := htrans c hc a ha b hbg hca hk
          rw [challenge_kept hca, challenge_kept hcb, challenge_kept hca]
      | false =>
          rw [challenge_displaced hca, challenge_kept hk]
          cases hcb : keeps c b with
          | true => rw [challenge_kept hcb, challenge_displaced hca]
          | false => rw [challenge_displaced hcb, challenge_displaced hba]

include hasym htrans in
/-- **Two of which one is preferred to the other may come in any order.** -/
theorem challenge_comm {best : Option α} {a b : α} (hb : ∀ y, best = some y → y ∈ ground)
    (ha : a ∈ ground) (hbg : b ∈ ground) (hk : keeps a b = true ∨ keeps b a = true) :
    challenge keeps (challenge keeps best a) b = challenge keeps (challenge keeps best b) a := by
  rcases hk with hk | hk
  · exact challenge_left_comm hasym htrans hb ha hbg hk
  · exact (challenge_left_comm hasym htrans hb hbg ha hk).symm

include hasym htrans in
/-- One moves behind several. -/
theorem foldl_challenge_comm {a : α} (ha : a ∈ ground) (bs : List α) :
    ∀ {best : Option α}, (∀ y, best = some y → y ∈ ground) →
    (∀ b ∈ bs, b ∈ ground ∧ (keeps a b = true ∨ keeps b a = true)) →
    bs.foldl (challenge keeps) (challenge keeps best a) =
      challenge keeps (bs.foldl (challenge keeps) best) a := by
  induction bs with
  | nil => exact fun _ _ => rfl
  | cons b bs ih =>
      intro best hbest hbs
      obtain ⟨hb, hk⟩ := hbs b List.mem_cons_self
      rw [List.foldl_cons, List.foldl_cons, challenge_comm hasym htrans hbest ha hb hk]
      exact ih (fun y => challenge_mem hbest hb) fun c hc => hbs c (List.mem_cons_of_mem _ hc)

include hasym htrans in
/-- **Neighbours may be exchanged**, if of each two one is preferred to the other. -/
theorem champion_exchange {before xs ys after : List α}
    (hg : ∀ a ∈ before ++ xs ++ ys ++ after, a ∈ ground)
    (hk : ∀ x ∈ xs, ∀ y ∈ ys, keeps x y = true ∨ keeps y x = true) :
    champion keeps (before ++ xs ++ ys ++ after) =
      champion keeps (before ++ ys ++ xs ++ after) := by
  have hxs : ∀ x ∈ xs, x ∈ ground := fun x hx => hg x (by simp [hx])
  have hys : ∀ y ∈ ys, y ∈ ground := fun y hy => hg y (by simp [hy])
  -- Those in front move one by one behind the others, the last one first.
  have hmove : ∀ {best : Option α}, (∀ y, best = some y → y ∈ ground) →
      ys.foldl (challenge keeps) (xs.foldl (challenge keeps) best) =
        xs.foldl (challenge keeps) (ys.foldl (challenge keeps) best) := by
    clear hg
    induction xs with
    | nil => exact fun _ => rfl
    | cons x xs ih =>
        intro best hbest
        have hx := hxs x List.mem_cons_self
        have hcomm := foldl_challenge_comm hasym htrans hx ys hbest
          fun y hy => ⟨hys y hy, hk x List.mem_cons_self y hy⟩
        rw [List.foldl_cons, List.foldl_cons, ← hcomm]
        exact ih (fun x' hx' => hk x' (List.mem_cons_of_mem _ hx'))
          (fun x' hx' => hxs x' (List.mem_cons_of_mem _ hx')) fun y => challenge_mem hbest hx
  have hbefore : ∀ y, champion keeps before = some y → y ∈ ground :=
    fun y hy => hg y (by simp [champion_mem hy])
  rw [champion_append, champion_append (before ++ xs), champion_append before, hmove hbefore,
    champion_append, champion_append (before ++ ys), champion_append before]

end Moving

/-! ## §5. Leaving some out. -/

section Leaving

variable {fails : α → Bool}

/-- `t` fails, and makes `r` lose its place before the later `s`: it displaces `r`, or keeps its
place before `r`, and gives way to `s`. -/
structure Interposed (keeps : α → α → Bool) (fails : α → Bool) (order : List α) (r t s : α) :
    Prop where
  failing : fails t = true
  working : fails s = false
  kept : keeps r s = true
  gives : keeps t s = false
  takes : keeps r t = false ∧ [r, t, s].Sublist order ∨ keeps t r = true ∧ [t, r, s].Sublist order

theorem mem_of_takes {order : List α} {r t s : α} {p q : Prop}
    (h : p ∧ [r, t, s].Sublist order ∨ q ∧ [t, r, s].Sublist order) :
    r ∈ order ∧ t ∈ order ∧ s ∈ order := by
  rcases h with ⟨-, hsub⟩ | ⟨-, hsub⟩
  · exact ⟨hsub.subset (by simp), hsub.subset (by simp), hsub.subset (by simp)⟩
  · exact ⟨hsub.subset (by simp), hsub.subset (by simp), hsub.subset (by simp)⟩

/-- How the fold over all that are left stands to the one over those that do not fail, with `rest`
still to come: they agree, or the first is led by one that fails and keeps its place before all
that the second keeps its place before. -/
inductive Shadowed (keeps : α → α → Bool) (fails : α → Bool) (rest : List α) :
    Option α → Option α → Prop
  | same (best : Option α) : Shadowed keeps fails rest best best
  | led (t : α) (v? : Option α) (ht : fails t = true) (h : ∀ v, v? = some v → ∀ y ∈ rest,
      fails y = false → keeps v y = true → keeps t y = true) : Shadowed keeps fails rest (some t) v?

theorem Shadowed.tail {b : α} {rest : List α} {u? v? : Option α}
    (h : Shadowed keeps fails (b :: rest) u? v?) : Shadowed keeps fails rest u? v? := by
  cases h with
  | same => exact .same _
  | led t v? ht h => exact .led t v? ht fun v hv y hy => h v hv y (List.mem_cons_of_mem _ hy)

theorem sublist_three {before rest : List α} {a b y : α} (ha : a ∈ before) (hy : y ∈ rest) :
    [a, b, y].Sublist (before ++ b :: rest) :=
  List.Sublist.append (List.singleton_sublist.mpr ha)
    (List.Sublist.cons_cons b (List.singleton_sublist.mpr hy))

/-- One that does not fail comes. -/
theorem Shadowed.working {before rest : List α} {b : α} {u? v? : Option α}
    (h : Shadowed keeps fails (b :: rest) u? v?) (hu : ∀ u, u? = some u → u ∈ before)
    (hnone : ∀ r t s, ¬ Interposed keeps fails (before ++ b :: rest) r t s)
    (hb : fails b = false) :
    Shadowed keeps fails rest (challenge keeps u? b) (challenge keeps v? b) := by
  cases h with
  | same best => exact .same _
  | led t v? ht h =>
      cases htb : keeps t b with
      | false =>
          -- Then nobody keeps its place before `b`.
          rw [challenge_displaced htb]
          cases v? with
          | none => exact .same _
          | some v =>
              have hvb : keeps v b = false := by
                apply Bool.eq_false_iff.mpr
                intro hvb
                rw [h v rfl b List.mem_cons_self hb hvb] at htb
                cases htb
              rw [challenge_displaced hvb]
              exact .same _
      | true =>
          rw [challenge_kept htb]
          have hstays {v : α} (hv : v? = some v) : ∀ y ∈ rest, fails y = false →
              keeps v y = true → keeps t y = true :=
            fun y hy => h v hv y (List.mem_cons_of_mem _ hy)
          -- What `b` keeps its place before, `t` does as well, or it would be interposed.
          have hnew : ∀ y ∈ rest, fails y = false → keeps b y = true → keeps t y = true := by
            intro y hy hworks hby
            by_contra hty
            exact hnone b t y ⟨ht, hworks, hby, Bool.eq_false_iff.mpr hty,
              .inr ⟨htb, sublist_three (hu t rfl) hy⟩⟩
          refine .led t _ ht fun v hv => ?_
          cases v? with
          | none =>
              cases hv
              exact hnew
          | some w =>
              cases hwb : keeps w b with
              | true =>
                  rw [challenge_kept hwb] at hv
                  cases hv
                  exact hstays rfl
              | false =>
                  rw [challenge_displaced hwb] at hv
                  cases hv
                  exact hnew

/-- One that fails comes, which only the first fold meets. -/
theorem Shadowed.failing {before rest : List α} {b : α} {u? v? : Option α}
    (h : Shadowed keeps fails (b :: rest) u? v?) (hu : ∀ u, u? = some u → u ∈ before)
    (hnone : ∀ r t s, ¬ Interposed keeps fails (before ++ b :: rest) r t s)
    (hb : fails b = true) : Shadowed keeps fails rest (challenge keeps u? b) v? := by
  -- Who gives way to `b` keeps its place only before those that `b` does, too.
  have htakes {u : α} (hub : keeps u b = false) (hu : u ∈ before) : ∀ y ∈ rest, fails y = false →
      keeps u y = true → keeps b y = true := by
    intro y hy hworks huy
    by_contra hby
    exact hnone u b y ⟨hb, hworks, huy, Bool.eq_false_iff.mpr hby,
      .inl ⟨hub, sublist_three hu hy⟩⟩
  cases u? with
  | none =>
      cases h
      exact .led b none hb nofun
  | some u =>
      cases hub : keeps u b with
      | true =>
          rw [challenge_kept hub]
          exact h.tail
      | false =>
          rw [challenge_displaced hub]
          refine .led b v? hb fun v hv y hy hworks hvy => ?_
          apply htakes hub (hu u rfl) y hy hworks
          cases h with
          | same => cases hv; exact hvy
          | led t v? ht h => exact h v hv y (List.mem_cons_of_mem _ hy) hworks hvy

theorem Shadowed.foldl {p : α → Bool} (rest : List α) : ∀ {before : List α} {u? v? : Option α},
    Shadowed keeps fails rest u? v? → (∀ u, u? = some u → u ∈ before) →
    (∀ a ∈ rest, fails a = false → p a = true) →
    (∀ r t s, ¬ Interposed keeps fails (before ++ rest) r t s) →
    Shadowed keeps fails [] ((rest.filter p).foldl (challenge keeps) u?)
      ((rest.filter fun a => !fails a).foldl (challenge keeps) v?) := by
  induction rest with
  | nil => intro _ _ _ h _ _ _; exact h
  | cons b rest ih =>
      intro before u? v? h hu hp hnone
      have hrest : ∀ a ∈ rest, fails a = false → p a = true :=
        fun a ha => hp a (List.mem_cons_of_mem _ ha)
      have hnone' : ∀ r t s, ¬ Interposed keeps fails ((before ++ [b]) ++ rest) r t s := by
        rwa [List.append_assoc]
      have hu' : ∀ u, u? = some u → u ∈ before ++ [b] :=
        fun u hu? => List.mem_append_left _ (hu u hu?)
      have hub : ∀ u, challenge keeps u? b = some u → u ∈ before ++ [b] :=
        fun u => challenge_mem hu' (List.mem_append_right _ List.mem_cons_self)
      cases hb : fails b with
      | false =>
          rw [List.filter_cons_of_pos (hp b List.mem_cons_self hb),
            List.filter_cons_of_pos (by rw [hb]; rfl)]
          exact ih (h.working hu hnone hb) hub hrest hnone'
      | true =>
          have hdrop : (b :: rest).filter (fun a => !fails a) = rest.filter fun a => !fails a :=
            List.filter_cons_of_neg (by rw [hb]; decide)
          rw [hdrop]
          cases hpb : p b with
          | true =>
              rw [List.filter_cons_of_pos hpb]
              exact ih (h.failing hu hnone hb) hub hrest hnone'
          | false =>
              rw [List.filter_cons_of_neg (by rw [hpb]; decide)]
              exact ih h.tail hu' hrest hnone'

/-- **Which of those that fail are left out does not matter**, if the champion does not fail and
none that fails is interposed. -/
theorem champion_leaving {as : List α} {p : α → Bool}
    (hp : ∀ a ∈ as, fails a = false → p a = true)
    (hnone : ∀ r t s, ¬ Interposed keeps fails as r t s)
    (h : ∀ a, champion keeps (as.filter p) = some a → fails a = false) :
    champion keeps (as.filter p) = champion keeps (as.filter fun a => !fails a) := by
  have hlast : Shadowed keeps fails [] (champion keeps (as.filter p))
      (champion keeps (as.filter fun a => !fails a)) := by
    have hinterposed : ∀ r t s, ¬ Interposed keeps fails ([] ++ as) r t s := hnone
    exact Shadowed.foldl as (.same none) nofun hp hinterposed
  generalize champion keeps (as.filter p) = u? at hlast h ⊢
  cases hlast with
  | same best => rfl
  | led t v? ht _ =>
      rw [h t rfl] at ht
      cases ht

end Leaving

end Preference

end ValueText
