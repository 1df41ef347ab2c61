/-
  ValueText.Proofs.Types.Nesting — display names of nested types.

  A display name is rendered with a budget that bounds the nesting.  Beside it stands the
  same rendering without a budget, and the depth of a type, which is the longest path that
  rendering follows: from an array, a pointer or a reference to its elements, from a type
  that is spelled out to its arguments, and from a type to the one that it is nested in.
  Words for common types and generic definitions cut such a path.

      form d            how a type is rendered, one step deep
      unlimited style d the display name of a type of any depth
      Follows d n       rendering `d` follows a path of `n` steps
      depth d           the greatest number of steps

  Main results:

    • `isGreatest_depth`  no path is longer than the depth, and one is that long;
    • `render?_eq`        a budget is enough exactly if it exceeds the depth, and then the
                          rendering does not depend on it;
    • `render_complete`   so a display name is the whole one, or it is marked.
-/
import Mathlib.Data.List.MinMax
import Mathlib.Order.Bounds.Defs
import ValueText.Types.DisplayName

namespace ValueText

namespace NameStyle

/-! ## §1. One step of rendering. -/

/-- How a type is rendered. -/
inductive Form
  /-- As a word; nothing is followed. -/
  | word (s : String)
  /-- As another type, with a suffix. -/
  | suffixed (element : Descriptor) (suffix : String)
  /-- By its own name, as a definition with so many parameters. -/
  | opened (arity : Nat)
  /-- By its own name, with arguments. -/
  | closed (arguments : List Descriptor)

/-- How a type is rendered that has a name of its own. -/
def ownForm (d : Descriptor) : Form :=
  match alias? d with
  | some w => .word w
  | none => if d.isGenericDefinition then .opened d.facts.arity else .closed d.arguments

/-- How a type is rendered, one step deep. -/
def form (d : Descriptor) : Form :=
  match d.kind, d.element with
  | .array, some e => .suffixed e "[]"
  | .array, none => .word "Array"
  | .pointer, some e => .suffixed e "*"
  | .pointer, none => .word "*"
  | .byRef, some e => .suffixed e "&"
  | .byRef, none => .word "&"
  | .genericParameter, _ => .word d.name
  | _, _ => ownForm d

/-- Arguments in angle brackets, if there are any. -/
def angled : List String → String
  | [] => ""
  | s :: rest => "<" ++ ", ".intercalate (s :: rest) ++ ">"

theorem ownForm_cases (d : Descriptor) : (∃ w, ownForm d = .word w) ∨
    ownForm d = .opened d.facts.arity ∨ ownForm d = .closed d.arguments := by
  unfold ownForm
  cases alias? d with
  | some w => exact .inl ⟨w, rfl⟩
  | none => cases d.isGenericDefinition with
    | true => exact .inr (.inl rfl)
    | false => exact .inr (.inr rfl)

theorem element_of_form {d e : Descriptor} {suffix : String}
    (h : form d = .suffixed e suffix) : d.element = some e := by
  unfold form at h
  split at h
  case h_8 => rcases ownForm_cases d with ⟨w, ho⟩ | ho | ho <;> rw [ho] at h <;> cases h
  all_goals cases h
  all_goals assumption

theorem arguments_of_form {d : Descriptor} {as : List Descriptor} (h : form d = .closed as) :
    d.arguments = as := by
  unfold form at h
  split at h
  case h_8 =>
    rcases ownForm_cases d with ⟨w, ho⟩ | ho | ho <;> rw [ho] at h <;> cases h
    rfl
  all_goals cases h

theorem sizeOf_element {d e : Descriptor} {suffix : String}
    (h : form d = .suffixed e suffix) : sizeOf e < sizeOf d := by
  have he := element_of_form h
  cases d
  subst he
  simp
  omega

theorem sizeOf_argument {d a : Descriptor} {as : List Descriptor} (h : form d = .closed as)
    (ha : a ∈ as) : sizeOf a < sizeOf d := by
  have hlt := List.sizeOf_lt_of_mem ha
  rw [← arguments_of_form h] at hlt
  cases d
  simp at hlt ⊢
  omega

/-! ## §2. Rendering without a budget. -/

/-- Outer types, namespace and name of a type that is nested in any number of others. -/
def path (style : NameStyle) : Descriptor → String
  | ⟨facts, some outer, _, _, _, _, _, _, _⟩ => path style outer ++ "." ++ stripArity facts.name
  | ⟨facts, none, _, _, _, _, _, _, _⟩ => style.spaceText facts.space ++ stripArity facts.name

/-- The display name of a type of any depth. -/
def unlimited (style : NameStyle) (d : Descriptor) : String :=
  match _form : form d with
  | .word s => s
  | .suffixed e suffix => unlimited style e ++ suffix
  | .opened arity => path style d ++ openBrackets arity
  | .closed as => path style d ++ angled (as.attach.map fun a => unlimited style a.1)
termination_by sizeOf d
decreasing_by
  · exact sizeOf_element _form
  · exact sizeOf_argument _form a.2

/-! ## §3. The depth of a type. -/

/-- The number of types that a type is nested in, one in another. -/
def outerDepth : Descriptor → Nat
  | ⟨_, some outer, _, _, _, _, _, _, _⟩ => outerDepth outer + 1
  | ⟨_, none, _, _, _, _, _, _, _⟩ => 0

/-- The greatest number of steps that rendering follows. -/
def depth (d : Descriptor) : Nat :=
  match _form : form d with
  | .word _ => 0
  | .suffixed e _ => depth e + 1
  | .opened _ => outerDepth d
  | .closed as => max (outerDepth d) ((as.attach.map fun a => depth a.1 + 1).foldr max 0)
termination_by sizeOf d
decreasing_by
  · exact sizeOf_element _form
  · exact sizeOf_argument _form a.2

/-- The type is nested in at least `n` types, one in another. -/
inductive NestedIn : Descriptor → Nat → Prop
  | here (d : Descriptor) : NestedIn d 0
  | outer {d o : Descriptor} {n : Nat} : d.outer = some o → NestedIn o n → NestedIn d (n + 1)

/-- Rendering the type follows a path of `n` steps. -/
inductive Follows : Descriptor → Nat → Prop
  | here (d : Descriptor) : Follows d 0
  | element {d e : Descriptor} {suffix : String} {n : Nat} : form d = .suffixed e suffix →
      Follows e n → Follows d (n + 1)
  | opened {d : Descriptor} {arity n : Nat} : form d = .opened arity → NestedIn d n → Follows d n
  | closed {d : Descriptor} {as : List Descriptor} {n : Nat} : form d = .closed as →
      NestedIn d n → Follows d n
  | argument {d a : Descriptor} {as : List Descriptor} {n : Nat} : form d = .closed as → a ∈ as →
      Follows a n → Follows d (n + 1)

/-! ## §4. Rendering with a budget. -/

/-- Renders a type of the given form, one step deep, with a budget for what is below. -/
def step? (style : NameStyle) (budget : Nat) (d : Descriptor) : Form → Option String
  | .word s => some s
  | .suffixed e suffix => (render? style budget e).map (· ++ suffix)
  | .opened arity => (path? style (budget + 1) d).map (· ++ openBrackets arity)
  | .closed as => (path? style (budget + 1) d).bind fun p =>
      (renderAll? style budget as).map fun names => p ++ angled names

theorem step?_ownForm (style : NameStyle) (budget : Nat) (d : Descriptor) :
    step? style budget d (ownForm d) =
      match alias? d with
      | some word => some word
      | none => (path? style (budget + 1) d).bind fun p =>
          if d.isGenericDefinition then some (p ++ openBrackets d.facts.arity)
          else
            match d.arguments with
            | [] => some p
            | a :: as => (renderAll? style budget as).bind fun args =>
                (render? style budget a).bind fun first =>
                  some (p ++ "<" ++ ", ".intercalate (first :: args) ++ ">") := by
  unfold ownForm
  cases alias? d with
  | some w => rfl
  | none =>
      cases hp : path? style (budget + 1) d with
      | none => cases d.isGenericDefinition <;> simp [step?, hp]
      | some p =>
          cases d.isGenericDefinition with
          | true => simp [step?, hp]
          | false =>
              cases has : d.arguments with
              | nil => simp [step?, hp, renderAll?, angled]
              | cons a as =>
                  cases hr : renderAll? style budget as <;> cases hf : render? style budget a <;>
                    simp [step?, hp, renderAll?, hr, hf, angled, String.append_assoc]

theorem render?_succ (style : NameStyle) (budget : Nat) (d : Descriptor) :
    render? style (budget + 1) d = step? style budget d (form d) := by
  obtain ⟨facts, outer, base, interfaces, definition, arguments, element, nullable, sequence⟩ := d
  unfold render? form
  dsimp only [Descriptor.kind, Descriptor.name]
  generalize facts.kind = kind
  cases kind <;> cases element <;> first | rfl | exact (step?_ownForm style budget _).symm

theorem unlimited_eq (style : NameStyle) (d : Descriptor) :
    unlimited style d = match form d with
      | .word s => s
      | .suffixed e suffix => unlimited style e ++ suffix
      | .opened arity => path style d ++ openBrackets arity
      | .closed as => path style d ++ angled (as.map (unlimited style)) := by
  conv_lhs => rw [unlimited]
  split <;> simp [*]

theorem depth_eq (d : Descriptor) :
    depth d = match form d with
      | .word _ => 0
      | .suffixed e _ => depth e + 1
      | .opened _ => outerDepth d
      | .closed as => max (outerDepth d) ((as.map (depth · + 1)).foldr max 0) := by
  conv_lhs => rw [depth]
  split <;> simp [*]

theorem path?_eq (style : NameStyle) (budget : Nat) (d : Descriptor) :
    path? style budget d = if outerDepth d < budget then some (path style d) else none := by
  induction budget generalizing d with
  | zero => rfl
  | succ budget ih =>
      obtain ⟨facts, outer, _, _, _, _, _, _, _⟩ := d
      cases outer with
      | none => rfl
      | some outer =>
          simp only [path?, ih, outerDepth, path, Nat.add_lt_add_iff_right]
          split <;> rfl

/-- Several types are rendered if the budget is enough for each of them. -/
theorem renderAll?_eq {style : NameStyle} {budget : Nat} {ds : List Descriptor}
    (h : ∀ d ∈ ds, render? style budget d =
      if depth d < budget then some (unlimited style d) else none) :
    renderAll? style budget ds =
      if (ds.map (depth · + 1)).foldr max 0 ≤ budget then some (ds.map (unlimited style))
      else none := by
  induction ds with
  | nil => rfl
  | cons d ds ih =>
      rw [List.forall_mem_cons] at h
      rw [renderAll?, h.1, ih h.2]
      simp only [List.map_cons, List.foldr_cons, Nat.max_le, Nat.succ_le_iff]
      split <;> split <;> simp_all

/-- **A budget is enough for a type exactly if it exceeds the depth**, and the rendering does not
depend on what is left. -/
theorem render?_eq (style : NameStyle) (d : Descriptor) (budget : Nat) :
    render? style budget d = if depth d < budget then some (unlimited style d) else none := by
  induction d using depth.induct generalizing budget with
  | case1 d s h =>
      cases budget with
      | zero => cases d; rfl
      | succ budget => rw [render?_succ, depth_eq, unlimited_eq, h, if_pos (Nat.succ_pos _)]; rfl
  | case2 d e suffix h ih =>
      cases budget with
      | zero => cases d; rfl
      | succ budget =>
          rw [render?_succ, depth_eq, unlimited_eq, h, step?, ih]
          simp only [Nat.add_lt_add_iff_right]
          split <;> rfl
  | case3 d arity h =>
      cases budget with
      | zero => cases d; rfl
      | succ budget =>
          rw [render?_succ, depth_eq, unlimited_eq, h, step?, path?_eq]
          dsimp only
          split <;> rfl
  | case4 d as h ih =>
      cases budget with
      | zero => cases d; rfl
      | succ budget =>
          rw [render?_succ, depth_eq, unlimited_eq, h, step?, path?_eq,
            renderAll?_eq fun a ha => ih ⟨a, ha⟩ budget]
          simp only [Nat.lt_succ_iff]
          split <;> split <;> simp_all

/-! ## §5. The longest path. -/

theorem nestedIn_iff {d : Descriptor} {n : Nat} : NestedIn d n ↔ n ≤ outerDepth d := by
  constructor
  · intro h
    induction h with
    | here d => exact Nat.zero_le _
    | @outer d o n ho _ ih =>
        cases d
        subst ho
        exact Nat.succ_le_succ ih
  · intro h
    induction n generalizing d with
    | zero => exact .here d
    | succ n ih =>
        obtain ⟨_, outer, _, _, _, _, _, _, _⟩ := d
        cases outer with
        | none => cases h
        | some o => exact .outer rfl (ih (Nat.le_of_succ_le_succ h))

theorem le_depth {d : Descriptor} {n : Nat} (h : Follows d n) : n ≤ depth d := by
  induction h with
  | here d => exact Nat.zero_le _
  | element hform _ ih =>
      rw [depth_eq, hform]
      exact Nat.succ_le_succ ih
  | opened hform hn =>
      rw [depth_eq, hform]
      exact nestedIn_iff.mp hn
  | closed hform hn =>
      rw [depth_eq, hform]
      exact le_max_of_le_left (nestedIn_iff.mp hn)
  | argument hform ha _ ih =>
      rw [depth_eq, hform]
      refine le_max_of_le_right (List.le_max_of_le' 0 (List.mem_map_of_mem ha) ?_)
      exact Nat.succ_le_succ ih

theorem foldr_max_mem {ns : List Nat} (h : 0 < ns.foldr max 0) : ns.foldr max 0 ∈ ns := by
  induction ns with
  | nil => exact absurd h (Nat.lt_irrefl 0)
  | cons n ns ih =>
      rw [List.foldr_cons] at h ⊢
      rcases max_choice n (ns.foldr max 0) with hmax | hmax <;> rw [hmax] at h ⊢
      · exact List.mem_cons_self
      · exact List.mem_cons_of_mem n (ih h)

theorem follows_depth (d : Descriptor) : Follows d (depth d) := by
  induction d using depth.induct with
  | case1 d s h =>
      rw [depth_eq, h]
      exact .here d
  | case2 d e suffix h ih =>
      rw [depth_eq, h]
      exact .element h ih
  | case3 d arity h =>
      rw [depth_eq, h]
      exact .opened h (nestedIn_iff.mpr le_rfl)
  | case4 d as h ih =>
      rw [depth_eq, h]
      dsimp only
      -- The longest path goes outwards, or through the argument that is deepest.
      rcases le_or_gt ((as.map (depth · + 1)).foldr max 0) (outerDepth d) with hle | hlt
      · rw [max_eq_left hle]
        exact .closed h (nestedIn_iff.mpr le_rfl)
      · rw [max_eq_right hlt.le]
        obtain ⟨a, ha, hdepth⟩ := List.mem_map.mp (foldr_max_mem (Nat.zero_lt_of_lt hlt))
        rw [← hdepth]
        exact .argument h ha (ih ⟨a, ha⟩)

/-- **The depth of a type is the length of the longest path that rendering follows.** -/
theorem isGreatest_depth (d : Descriptor) : IsGreatest {n | Follows d n} (depth d) :=
  ⟨follows_depth d, fun _ h => le_depth h⟩

/-! ## §6. Display names. -/

/-- **A display name is complete or clearly marked.**  With either choice for the namespace, a
type through which no path is longer than thirty-two steps has the display name that rendering
without a budget gives; every other type has its full name after an exclamation mark. -/
theorem render_complete (style : NameStyle) (d : Descriptor) :
    IsGreatest {n | Follows d n} (depth d) ∧
      style.render d = if depth d ≤ 32 then style.unlimited d else "!" ++ d.fullName := by
  refine ⟨isGreatest_depth d, ?_⟩
  rw [render, render?_eq, maxDepth]
  by_cases h : depth d ≤ 32
  · rw [if_pos h, if_pos (Nat.lt_succ_of_le h)]
  · rw [if_neg h, if_neg fun hlt => h (Nat.le_of_lt_succ hlt)]

end NameStyle
end ValueText
