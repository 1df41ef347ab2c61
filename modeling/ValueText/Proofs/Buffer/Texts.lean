/-
  ValueText.Proofs.Buffer.Texts — texts go into a builder and read back.

  A builder knows nothing of texts but their units.  A text that is appended reads back
  whatever stands in front of it, for no text begins with the second half of a surrogate
  pair; units that are appended as such may end or begin with half a pair, and a
  truncation may cut through one.  What reads back is said place by place, so that it does
  not matter how the content came about.

  Main results:

    • `run_units`    appends that fit together are one append of all their units;
    • `units_run`    appends and truncations that succeed, as operations on lists;
    • `text_eq_iff`  the text of any content: exactly the surrogates without their other
                     half are replaced;
    • `texts_read_back`  the three, for every builder of every session.
-/
import Mathlib.Algebra.GroupWithZero.Nat
import ValueText.Proofs.Buffer.PanicFree
import ValueText.Proofs.Buffer.Refinement
import ValueText.Proofs.Text.Surrogates

namespace ValueText

/-! ## §1. Reading back. -/

/-- The text `s` has the units `us`, except for U+FFFD in the place of each surrogate without
its other half. -/
def CodeUnit.Mends (us : List CodeUnit) (s : String) : Prop :=
  (encode s).length = us.length ∧
    ∀ i u, us[i]? = some u → (encode s)[i]? = some (if isUnpaired us i then 0xFFFD else u)

theorem CodeUnit.mends_iff {us : List CodeUnit} {s : String} : Mends us s ↔ encode s = mended us := by
  constructor
  · rintro ⟨hlength, hat⟩
    refine List.ext_getElem? fun i => ?_
    rw [getElem?_mended]
    cases hu : us[i]? with
    | some u => exact hat i u hu
    | none =>
        rw [List.getElem?_eq_none_iff] at hu
        exact List.getElem?_eq_none (hlength ▸ hu)
  · intro h
    rw [Mends, h]
    refine ⟨mended_length us, fun i u hu => ?_⟩
    rw [getElem?_mended, hu]
    rfl

namespace Builder

/-- **The text of any content** is the one that mends it. -/
theorem text_eq_iff (b : Builder) (s : String) : b.text = s ↔ CodeUnit.Mends b.units s := by
  rw [CodeUnit.mends_iff, ← CodeUnit.encode_decode]
  constructor
  · rintro rfl
    rfl
  · intro h
    rw [text, ← CodeUnit.decode_encode (CodeUnit.decode b.units), ← h, CodeUnit.decode_encode]

theorem units_truncate {b : Builder} (h : b.Bounded) (n : Nat) :
    (b.truncate n).units = b.units.take n := by
  unfold truncate
  split
  · next hn =>
      show b.region.slice 0 n = (b.region.slice 0 b.length).take n
      rw [Region.slice_zero, Region.slice_zero, List.take_take, Nat.min_eq_left (Nat.le_of_lt hn)]
  · next hn => rw [List.take_of_length_le (by rw [h.units_length]; omega)]

end Builder

/-! ## §2. Appends that succeed. -/

namespace Workspace

/-- The text that an edit appends, if it appends a text, a character, a truth value or an
integer of its width. -/
def Edit.wording? : Edit → Option String
  | .text s => some s
  | .char c => some (String.singleton c)
  | .bool v => some (Literal.ofBool v)
  | .int width n => if width.Holds n then some (toString n) else none
  | _ => none

/-- The units that an edit appends, if it appends a text or units. -/
def Edit.units? : Edit → Option (List CodeUnit)
  | .unit u => some [u]
  | .units us => some us
  | .repeated u n => some (List.replicate n u)
  | e => e.wording?.map CodeUnit.encode

/-- Whether an edit appends a text or units, or truncates. -/
def Edit.Revises : Edit → Prop
  | .truncate _ => True
  | e => e.units? ≠ none

/-- What such an edit makes of the content when it succeeds. -/
def Edit.revise (us : List CodeUnit) : Edit → List CodeUnit
  | .truncate n => us.take n
  | e => us ++ e.units?.getD []

/-- The answer of such an edit when it succeeds. -/
def Edit.success : Edit → Reply
  | .truncate _ => .done
  | _ => .flag true

/-- The edits of the named builder succeed one after another. -/
def Succeed (name : String) : Workspace → List Edit → Prop
  | _, [] => True
  | w, e :: rest => ∃ w', w.step (.edit name e) = .ok (e.success, w') ∧ Succeed name w' rest

variable {w w' : Workspace} {name : String} {id : BuilderId} {t : Tenant} {b : Builder} {e : Edit}
  {us : List CodeUnit}

theorem Edit.units?_of_wording? {s : String} (h : e.wording? = some s) :
    e.units? = some (CodeUnit.encode s) := by
  cases e <;> first | exact congrArg (Option.map CodeUnit.encode) h | cases h

theorem Edit.success_of_units? (h : e.units? = some us) : e.success = .flag true := by
  cases e <;> first | rfl | cases h

theorem Edit.revise_of_units? (h : e.units? = some us) (vs : List CodeUnit) :
    e.revise vs = vs ++ us := by
  cases e <;> first | exact congrArg (fun o => vs ++ o.getD []) h | cases h

theorem units?_wordings {es : List Edit} : ∀ {texts : List String},
    es.map Edit.wording? = texts.map some →
    es.map Edit.units? = (texts.map CodeUnit.encode).map some := by
  induction es with
  | nil =>
      intro texts h
      obtain rfl : texts = [] := by simpa using h.symm
      rfl
  | cons e rest ih =>
      intro texts h
      cases texts with
      | nil => cases h
      | cons s texts =>
          obtain ⟨hfirst, hrest⟩ := List.cons.inj h
          rw [List.map_cons, Edit.units?_of_wording? hfirst, ih hrest]
          rfl

/-- The characters of a text and their units. -/
theorem units?_chars (s : String) :
    (s.toList.map Edit.char).map Edit.units? = (s.toList.map CodeUnit.encodeChar).map some := by
  rw [List.map_map, List.map_map]
  refine List.map_congr_left fun c _ => ?_
  show some (CodeUnit.encode (String.singleton c)) = some (CodeUnit.encodeChar c)
  rw [CodeUnit.encode, String.toList_singleton, CodeUnit.encodeChars_cons]
  exact congrArg some (List.append_nil _)

/-- Each of these appends is the append of its units. -/
theorem edit_units (h : e.units? = some us) (id : BuilderId) (t : Tenant) :
    w.edit id t e = .ok (.ofAppend (t.builder.appendUnits us).1,
      w.setBuilder id (t.builder.appendUnits us).2) := by
  cases e with
  | unit u => cases h; rfl
  | units us => cases h; rfl
  | text s => cases h; rfl
  | bool v => cases h; rfl
  | repeated u n =>
      cases h
      rw [← Builder.appendRepeated_eq_appendUnits]
      rfl
  | char c =>
      simp only [Edit.units?, Edit.wording?, Option.map_some, CodeUnit.encode,
        String.toList_singleton, CodeUnit.encodeChars_cons, Option.some.injEq] at h
      rw [← h, CodeUnit.encodeChars, List.flatMap_nil, List.append_nil]
      rfl
  | int width n =>
      simp only [Edit.units?, Edit.wording?] at h
      split at h
      · next hholds =>
          cases h
          rw [← Numeral.ofInt_eq_toString, Numeral.encode_ofInt,
            ← Builder.appendInt_eq_appendNumeral _ hholds]
          rfl
      · cases h
  | _ => cases h

theorem builder_setBuilder (h : w.builder name = .ok (id, t)) (b : Builder) :
    ∃ t', (w.setBuilder id b).builder name = .ok (id, t') ∧ t'.builder = b := by
  obtain ⟨hname, ht⟩ := builder_eq_ok h
  refine ⟨{ t with builder := b }, ?_, rfl⟩
  show (w.builderId name >>= _) = _
  rw [hname]
  simp only [setBuilder, bind, Except.bind, Array.getElem?_modify, ht]
  rfl

/-- An append succeeds exactly if its units fit. -/
theorem succeed_cons (hbuilder : w.builder name = .ok (id, t)) (hb : t.builder.Bounded)
    (he : e.units? = some us) (rest : List Edit) :
    w.Succeed name (e :: rest) ↔ us.length ≤ t.builder.remaining ∧
      (w.setBuilder id (t.builder.appendUnits us).2).Succeed name rest := by
  have hstep := (step_edit hbuilder e).trans (edit_units he id t)
  rw [Succeed, Edit.success_of_units? he, hstep, ← Builder.appendUnits_ok_iff hb]
  constructor
  · rintro ⟨w', hw', hrest⟩
    obtain ⟨hreply, rfl⟩ := Prod.mk.inj (Except.ok.inj hw')
    refine ⟨?_, hrest⟩
    cases hanswer : (t.builder.appendUnits us).1 with
    | ok v => rw [hanswer] at hreply; cases hreply; rfl
    | error o => rw [hanswer] at hreply; cases hreply
  · rintro ⟨hanswer, hrest⟩
    rw [hanswer]
    exact ⟨_, rfl, hrest⟩

/-- **Appends that fit together are one append of all their units.**  They succeed exactly
if they fit together. -/
theorem run_units (es : List Edit) : ∀ {w : Workspace} {t : Tenant} {uss : List (List CodeUnit)},
    w.builder name = .ok (id, t) → t.builder.Bounded → t.builder.Consistent →
    es.map Edit.units? = uss.map some →
    (w.Succeed name es ↔ uss.flatten.length ≤ t.builder.remaining) ∧
    (uss.flatten.length ≤ t.builder.remaining →
      w.run (es.map (.edit name)) = w.setBuilder id (t.builder.appendUnits uss.flatten).2) := by
  induction es with
  | nil =>
      intro w t uss hbuilder _ hc he
      obtain rfl : uss = [] := by simpa using he.symm
      refine ⟨⟨fun _ => Nat.zero_le _, fun _ => trivial⟩, fun _ => ?_⟩
      rw [List.flatten_nil, Builder.appendUnits_nil hc]
      exact (setBuilder_self (builder_eq_ok hbuilder).2).symm
  | cons e rest ih =>
      intro w t uss hbuilder hb hc he
      obtain ⟨us, uss, rfl⟩ : ∃ us uss', uss = us :: uss' := by
        cases uss with
        | nil => cases he
        | cons us uss => exact ⟨us, uss, rfl⟩
      obtain ⟨hfirst, hrest⟩ := List.cons.inj he
      rw [List.flatten_cons, List.length_append]
      -- What is left is run on the builder with the first units.
      obtain ⟨t₁, hbuilder₁, hb₁⟩ := builder_setBuilder hbuilder (t.builder.appendUnits us).2
      obtain ⟨hsucceed, hrun⟩ := ih hbuilder₁ (hb₁ ▸ hb.appendUnits us)
        (hb₁ ▸ hc.grown (t.builder.grown_appendUnits us)) hrest
      have hremaining (hfit : us.length ≤ t.builder.remaining) :
          t₁.builder.remaining = t.builder.remaining - us.length := by
        obtain ⟨-, hlands⟩ := Builder.lands_appendUnits hb hfit
        rw [hb₁, Builder.remaining, Builder.remaining, hlands.capacity, hlands.length,
          Nat.sub_add_eq]
      constructor
      · rw [succeed_cons hbuilder hb hfirst, hsucceed]
        constructor
        · rintro ⟨hfit, hmore⟩
          have hleft := hremaining hfit
          omega
        · intro hfit
          have hleft := hremaining (by omega)
          exact ⟨by omega, by omega⟩
      · intro hfit
        have hleft := hremaining (by omega)
        have hstep := (step_edit hbuilder e).trans (edit_units hfirst id t)
        rw [List.map_cons, run_cons, after_of_step hstep, hrun (by omega), hb₁,
          setBuilder_setBuilder, Builder.appendUnits_append us uss.flatten]
        rw [List.length_append]
        exact hfit

/-- One append or truncation that succeeds, as an operation on lists. -/
theorem units_step (hbuilder : w.builder name = .ok (id, t)) (hb : t.builder.Bounded)
    (he : e.Revises) (hstep : w.step (.edit name e) = .ok (e.success, w')) :
    ∃ t', w'.builder name = .ok (id, t') ∧ t'.builder.Bounded ∧
      t'.builder.units = e.revise t.builder.units := by
  rw [step_edit hbuilder] at hstep
  have hunits (us : List CodeUnit) (hus : e.units? = some us) :
      ∃ t', w'.builder name = .ok (id, t') ∧ t'.builder.Bounded ∧
        t'.builder.units = e.revise t.builder.units := by
    rw [edit_units hus, Edit.success_of_units? hus] at hstep
    obtain ⟨hreply, rfl⟩ := Prod.mk.inj (Except.ok.inj hstep)
    have hfit : us.length ≤ t.builder.remaining := by
      rw [← Builder.appendUnits_ok_iff hb]
      cases hanswer : (t.builder.appendUnits us).1 with
      | ok v => rw [hanswer] at hreply; cases hreply; rfl
      | error o => rw [hanswer] at hreply; cases hreply
    obtain ⟨t', hbuilder', hb'⟩ := builder_setBuilder hbuilder (t.builder.appendUnits us).2
    refine ⟨t', hbuilder', hb' ▸ hb.appendUnits us, ?_⟩
    rw [Edit.revise_of_units? hus, hb']
    exact (Builder.lands_appendUnits hb hfit).2.units
  cases e with
  | truncate n =>
      cases hstep
      obtain ⟨t', hbuilder', hb'⟩ := builder_setBuilder hbuilder (t.builder.truncate n)
      exact ⟨t', hbuilder', hb' ▸ hb.truncate n, hb' ▸ Builder.units_truncate hb n⟩
  | _ => exact Option.ne_none_iff_exists'.mp he |>.elim hunits

/-- **Appends and truncations that succeed, as operations on lists.** -/
theorem units_run (es : List Edit) : ∀ {w : Workspace} {t : Tenant},
    w.builder name = .ok (id, t) → t.builder.Bounded → (∀ e ∈ es, e.Revises) →
    w.Succeed name es →
    ∃ t', (w.run (es.map (.edit name))).builder name = .ok (id, t') ∧ t'.builder.Bounded ∧
      t'.builder.units = es.foldl Edit.revise t.builder.units := by
  induction es with
  | nil => intro w t hbuilder hb _ _; exact ⟨t, hbuilder, hb, rfl⟩
  | cons e rest ih =>
      intro w t hbuilder hb he hsucceed
      obtain ⟨w', hstep, hrest⟩ := hsucceed
      obtain ⟨t₁, hbuilder₁, hb₁, hunits₁⟩ := units_step hbuilder hb (he e List.mem_cons_self) hstep
      obtain ⟨t', hbuilder', hb', hunits'⟩ :=
        ih hbuilder₁ hb₁ (fun e' he' => he e' (List.mem_cons_of_mem e he')) hrest
      refine ⟨t', ?_, hb', ?_⟩
      · rw [List.map_cons, run_cons, after_of_step hstep]
        exact hbuilder'
      · rw [hunits', hunits₁]
        rfl

/-! ## §3. Texts. -/

theorem encode_join (texts : List String) :
    CodeUnit.encode (String.join texts) = (texts.map CodeUnit.encode).flatten := by
  induction texts with
  | nil => rfl
  | cons s texts ih => rw [String.join_cons, CodeUnit.encode_append, ih]; rfl

/-- **Texts that go into a builder read back.**  For every builder that has a name in a session:

1. Appends of texts, characters, truth values and integers all succeed exactly if the UTF-16
   lengths of the texts fit together.  Then the text of the builder has theirs behind it, one
   after another, and its length has grown by their lengths.  An empty builder has the empty
   text.
2. A text that fits is appended by one append or by the appends of its characters, and the
   workspace is the same.
3. As long as memory is there, the append of a text does so with all its checks.  What it
   reserves, the bytes of an ASCII text and the units of any other, is the UTF-16 length.
4. After appends of any units and truncations that succeed, the content is what the same
   appends and truncations make of a list.
5. The text of any content has as many units as the content, and they are those of the content
   except for U+FFFD in the place of each surrogate without its other half; no other text is
   like this. -/
theorem texts_read_back (steps : List Step) {name : String} {b : Builder}
    (hb : (run {} steps).builder? name = some b) :
    ((∀ es texts, es.map Edit.wording? = texts.map some →
      ((run {} steps).Succeed name es ↔
        (texts.map fun s => (CodeUnit.encode s).length).sum ≤ b.remaining) ∧
      ((run {} steps).Succeed name es →
        ∃ b', (run {} (steps ++ es.map (.edit name))).builder? name = some b' ∧
          b'.text = b.text ++ String.join texts ∧
          b'.length = b.length + (texts.map fun s => (CodeUnit.encode s).length).sum)) ∧
      (b.isEmpty → b.text = "")) ∧
    (∀ s, (CodeUnit.encode s).length ≤ b.remaining →
      (run {} steps).Succeed name [.text s] ∧ (run {} steps).Succeed name (s.toList.map .char) ∧
      run {} (steps ++ [.edit name (.text s)]) =
        run {} (steps ++ (s.toList.map .char).map (.edit name))) ∧
    (∀ s, CodeUnit.reserved s = (CodeUnit.encode s).length ∧
      (Served Check.maxUnits {} steps → b.appendTextChecked s = .ok (b.appendText s))) ∧
    (∀ es, (∀ e ∈ es, e.Revises) → (run {} steps).Succeed name es →
      ∃ b', (run {} (steps ++ es.map (.edit name))).builder? name = some b' ∧
        b'.units = es.foldl Edit.revise b.units) ∧
    ∀ s, b.text = s ↔ CodeUnit.Mends b.units s := by
  obtain ⟨id, t, hbuilder, -, rfl⟩ := builder_of_builder? hb
  have hat := builderAt?_of_tenant (builder_eq_ok hbuilder).2
  have hbounded := bounded_run steps id t.builder hat
  have hconsistent := consistent_run steps id t.builder hat
  refine ⟨⟨?texts, ?empty⟩, ?chars, ?checked, ?units, ?any⟩
  case texts =>
    intro es texts he
    have hunits : es.map Edit.units? = (texts.map CodeUnit.encode).map some := units?_wordings he
    have hlength : (texts.map CodeUnit.encode).flatten.length =
        (texts.map fun s => (CodeUnit.encode s).length).sum := by
      rw [List.length_flatten, List.map_map]
      rfl
    obtain ⟨hsucceed, hrun⟩ := run_units es hbuilder hbounded hconsistent hunits
    rw [hlength] at hsucceed hrun
    refine ⟨hsucceed, fun hs => ?_⟩
    have hfit := hsucceed.mp hs
    obtain ⟨-, hlands⟩ := Builder.lands_appendUnits hbounded (hlength ▸ hfit)
    obtain ⟨t', hbuilder', hb'⟩ := builder_setBuilder hbuilder
      (t.builder.appendUnits (texts.map CodeUnit.encode).flatten).2
    refine ⟨t'.builder, ?_, ?_, ?_⟩
    · rw [run_append, hrun hfit]
      exact builder?_of_builder hbuilder'
    · rw [hb', Builder.text, hlands.units, ← encode_join, CodeUnit.decode_append_encode]
      rfl
    · rw [hb', hlands.length, hlength]
  case empty =>
    intro hempty
    have hzero : t.builder.length = 0 := by simpa [Builder.isEmpty] using hempty
    have hnil : t.builder.units = [] :=
      List.eq_nil_of_length_eq_zero (hbounded.units_length.trans hzero)
    rw [Builder.text, hnil]
    rfl
  case chars =>
    intro s hfit
    have hflatten : (s.toList.map CodeUnit.encodeChar).flatten = CodeUnit.encode s := by
      rw [CodeUnit.encode, CodeUnit.encodeChars, List.flatMap_def]
    have htext : ([.text s] : List Edit).map Edit.units? = [CodeUnit.encode s].map some := rfl
    obtain ⟨hsucceed₁, hrun₁⟩ := run_units [.text s] hbuilder hbounded hconsistent htext
    obtain ⟨hsucceed₂, hrun₂⟩ := run_units (s.toList.map .char) hbuilder hbounded hconsistent
      (units?_chars s)
    rw [List.flatten_singleton] at hsucceed₁ hrun₁
    rw [hflatten] at hsucceed₂ hrun₂
    refine ⟨hsucceed₁.mpr hfit, hsucceed₂.mpr hfit, ?_⟩
    rw [run_append, run_append, hrun₂ hfit, ← hrun₁ hfit]
    rfl
  case checked =>
    intro s
    exact ⟨CodeUnit.reserved_eq s, fun hserved =>
      (housed_run hserved id t.builder hat).appendTextChecked_eq s⟩
  case units =>
    intro es he hsucceed
    obtain ⟨t', hbuilder', -, hunits⟩ := units_run es hbuilder hbounded he hsucceed
    refine ⟨t'.builder, ?_, hunits⟩
    rw [run_append]
    exact builder?_of_builder hbuilder'
  case any => exact t.builder.text_eq_iff

/-- A session that makes a builder. -/
def blank : List Step := [.newBuilder "b" ⟨9, .error⟩]

/-- A pair that is appended as a character, one that is appended in halves, and one that is
cut. -/
theorem texts_read_back_blank :
    (∃ b', (run {} (blank ++ ([.text "é", .char '😀', .bool true,
        .int .i8 (-7)] : List Edit).map (.edit "b"))).builder? "b" = some b' ∧
      b'.text = "é😀true-7" ∧ b'.length = 9) ∧
    (∃ b', (run {} (blank ++ ([.unit 0xD83D, .unit 0xDE00] : List Edit).map
        (.edit "b"))).builder? "b" = some b' ∧ b'.text = "😀") ∧
    ∃ b', (run {} (blank ++ ([.unit 0xD83D, .unit 0xDE00, .truncate 1] : List Edit).map
        (.edit "b"))).builder? "b" = some b' ∧ b'.text = "\uFFFD" := by
  have hb : (run {} blank).builder? "b" = some _ := rfl
  obtain ⟨⟨htexts, hempty⟩, -, -, hunits, -⟩ := texts_read_back blank hb
  have hblank := hempty rfl
  refine ⟨?_, ?_, ?_⟩
  · obtain ⟨hfits, happend⟩ := htexts [.text "é", .char '😀', .bool true, .int .i8 (-7)]
      ["é", "😀", "true", "-7"] (by decide)
    obtain ⟨b', hb', htext, hlength⟩ := happend (hfits.mpr (by decide))
    refine ⟨b', hb', ?_, hlength⟩
    rw [htext, hblank]
    decide
  · obtain ⟨b', hb', hu⟩ := hunits [.unit 0xD83D, .unit 0xDE00] (by simp [Edit.Revises, Edit.units?])
      ⟨_, rfl, _, rfl, trivial⟩
    refine ⟨b', hb', ?_⟩
    rw [Builder.text, hu]
    decide
  · obtain ⟨b', hb', hu⟩ := hunits [.unit 0xD83D, .unit 0xDE00, .truncate 1]
      (by simp [Edit.Revises, Edit.units?]) ⟨_, rfl, _, rfl, _, rfl, trivial⟩
    refine ⟨b', hb', ?_⟩
    rw [Builder.text, hu]
    decide

end Workspace
end ValueText
