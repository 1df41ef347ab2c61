/-
  ValueText.Proofs.Buffer.Copying — copies between regions, and of a region onto itself.

  A copy checks the range that it writes, then the range that it reads, and after that it goes
  through both unit by unit, in ascending order.  Each unit is read only when its turn comes.
  Within one region it may therefore read what it has written itself.  That depends on where the
  copy goes, to `p` from the range `lo … hi - 1`:

      p ≤ lo, or hi ≤ p   a unit is read before anything is written over it, and so the range
                          arrives as it was
      lo < p < hi         the first `p - lo` units of the range arrive, and behind them the copy
                          reads its own output, so that they are repeated

  `Storing` is the kind of program that such a loop is: it may stop at any access, and what it
  has stored until then stays.

  Main results:

    • `copyEach_within`, `copyEach_between`  the loop, in one region and in two;
    • `getElem?_copyWithin`                  what stands where after a copy in one region;
    • `copyRange_eq`, `copyRange_outside`    a copy succeeds as a whole, or stops at a check
                                             before it has stored anything;
    • `copy_exactly`                         what a step of a session copies, unit by unit.
-/
import ValueText.Proofs.Buffer.Integers

namespace ValueText

/-! ## §1. Unit by unit. -/

/-- A program over the memory of all regions.  When it stops, what it has stored stays. -/
abbrev Storing := EStateM Panic (Array Region)

namespace Storing

/-- Reads a unit of a region. -/
def load (i p : Nat) : Storing CodeUnit := fun rs =>
  match rs[i]?.bind (·.load? p) with
  | some u => .ok u rs
  | none => .error .range rs

/-- Stores a unit in a region. -/
def store (i p : Nat) (u : CodeUnit) : Storing Unit := fun rs =>
  match rs[i]?.bind (·.store? p u) with
  | some r => .ok () (rs.modify i fun _ => r)
  | none => .error .range rs

/-- Checks that a range lies in a region. -/
def check (i lo hi : Nat) : Storing Unit := fun rs =>
  if rs[i]?.any (·.covers lo hi) then .ok () rs else .error .range rs

/-- Copies `n` units from `q` on in the region `k` to `p` and behind it in the region `i`. -/
def copyEach (i p k q : Nat) : Nat → Storing Unit
  | 0 => pure ()
  | n + 1 => do
      let u ← load k q
      store i p u
      copyEach i (p + 1) k (q + 1) n

/-- Copies a range of the region `k` to `p` in the region `i`. -/
def copyRange (i p k lo hi : Nat) : Storing Unit := do
  check i p (p + (hi - lo))
  check k lo hi
  copyEach i p k lo (hi - lo)

section Steps

variable {rs : Array Region} {r r' : Region} {i k p q : Nat}

theorem modify_self (h : rs[i]? = some r) : rs.modify i (fun _ => r) = rs := by
  apply Array.ext_getElem?
  intro j
  rw [Array.getElem?_modify]
  split
  · next hij => rw [← hij, h, Option.map_some]
  · rfl

theorem modify_modify : (rs.modify i fun _ => r).modify i (fun _ => r') =
    rs.modify i fun _ => r' := by
  apply Array.toList_inj.mp
  simp only [Array.toList_modify, List.modify_modify_eq]
  rfl

theorem getElem?_modify_self (h : rs[i]? = some r) : (rs.modify i fun _ => r')[i]? = some r' := by
  rw [Array.getElem?_modify, if_pos rfl, h, Option.map_some]

theorem load_eq (hr : rs[i]? = some r) {u : CodeUnit} (hu : r.load? p = some u) :
    load i p rs = .ok u rs := by
  simp only [load, hr, Option.bind_some, hu]

theorem store_eq (hr : rs[i]? = some r) (hp : p < r.capacity) (u : CodeUnit) :
    store i p u rs = .ok () (rs.modify i fun _ => r.put p u) := by
  simp only [store, hr, Option.bind_some, Region.store?_eq hp]

/-- **One turn of the loop**, and what is left of it. -/
theorem copyEach_succ {o : Region} {u : CodeUnit} (hr : rs[i]? = some r) (ho : rs[k]? = some o)
    (hu : o.load? q = some u) (hp : p < r.capacity) (n : Nat) :
    copyEach i p k q (n + 1) rs =
      copyEach i (p + 1) k (q + 1) n (rs.modify i fun _ => r.put p u) := by
  show EStateM.bind (load k q) _ rs = _
  rw [EStateM.bind, load_eq ho hu]
  show EStateM.bind (store i p u) _ rs = _
  rw [EStateM.bind, store_eq hr hp u]

end Steps

end Storing

/-! ## §2. The memory of one region. -/

namespace Region

variable {r r' : Region} {i p q : Nat}

theorem load?_of_lt (h : i < r.capacity) : r.load? i = r.cells[i]? := by
  unfold load? units capacity at *
  split at h
  · omega
  · next hr => rw [if_neg hr, Array.getElem?_toList]

theorem load?_congr (ho : r'.ownership = r.ownership) (hc : r'.cells[p]? = r.cells[q]?) :
    r'.load? p = r.load? q := by
  unfold load? units
  rw [ho]
  split
  · rfl
  · rw [Array.getElem?_toList, Array.getElem?_toList, hc]

theorem exists_load? (h : i < r.capacity) : ∃ u, r.load? i = some u := by
  have hsize := r.capacity_le_size
  exact ⟨r.cells[i], by rw [load?_of_lt h, Array.getElem?_eq_getElem]⟩

theorem slice_succ {u : CodeUnit} (h : r.cells[q]? = some u) (n : Nat) :
    r.slice q (q + (n + 1)) = u :: r.slice (q + 1) (q + 1 + n) := by
  have hu : r.cells.toList[q]? = some u := by rw [Array.getElem?_toList, h]
  obtain ⟨hq, rfl⟩ := List.getElem?_eq_some_iff.mp hu
  simp only [slice, Array.toList_extract, List.extract_eq_take_drop, Nat.add_sub_cancel_left]
  rw [List.drop_eq_getElem_cons hq, List.take_succ_cons]

theorem copyWithin_succ {u : CodeUnit} (h : r.cells[q]? = some u) (n : Nat) :
    r.copyWithin p q (n + 1) = (r.put p u).copyWithin (p + 1) (q + 1) n := by
  rw [copyWithin, h]

theorem steady_copyWithin (n : Nat) : ∀ p q : Nat, Steady (·.copyWithin p q n) := by
  induction n with
  | zero =>
      intro p q
      exact ⟨fun _ => rfl, fun _ => rfl⟩
  | succ n ih =>
      intro p q
      constructor
      · intro r
        rw [copyWithin]
        split
        · rw [(ih _ _).size, size_put]
        · exact (ih _ _).size r
      · intro r
        rw [copyWithin]
        split
        · rw [(ih _ _).ownership]
          rfl
        · exact (ih _ _).ownership r

/-- A copy leaves the units in front of it and behind it alone. -/
theorem getElem?_copyWithin_outside (n : Nat) : ∀ {r : Region} {p q j : Nat},
    j < p ∨ p + n ≤ j → (r.copyWithin p q n).cells[j]? = r.cells[j]? := by
  induction n with
  | zero =>
      intro r p q j h
      rfl
  | succ n ih =>
      intro r p q j h
      rw [copyWithin]
      split
      · rw [ih (by omega), getElem?_put_of_ne _ (by omega)]
      · exact ih (by omega)

/-- Where a copy to `p` from `q` on finds the unit that it puts at `p + m`. -/
def origin (p q m : Nat) : Nat := if q < p then q + m % (p - q) else q + m

theorem origin_of_lt {p q : Nat} (h : q < p) (m : Nat) : origin p q m = q + m % (p - q) := if_pos h

theorem origin_of_le {p q : Nat} (h : p ≤ q) (m : Nat) : origin p q m = q + m :=
  if_neg (Nat.not_lt.mpr h)

theorem origin_zero (p q : Nat) : origin p q 0 = q := by simp [origin]

/-- One place further, the unit comes from where the rest of the copy finds it, unless that is
the place that was just written. -/
theorem origin_succ (p q m : Nat) :
    origin p q (m + 1) =
      if origin (p + 1) (q + 1) m = p then q else origin (p + 1) (q + 1) m := by
  rcases Nat.lt_or_ge q p with h | h
  · have hrest : origin (p + 1) (q + 1) m = q + 1 + m % (p - q) := by
      rw [origin_of_lt (by omega), Nat.add_sub_add_right]
    have hnext : (m + 1) % (p - q) = (m % (p - q) + 1) % (p - q) := by rw [Nat.mod_add_mod]
    have hlt : m % (p - q) < p - q := Nat.mod_lt _ (by omega)
    rw [hrest, origin_of_lt h, hnext]
    by_cases hlast : m % (p - q) + 1 = p - q
    · rw [if_pos (by omega), hlast, Nat.mod_self, Nat.add_zero]
    · rw [if_neg (by omega), Nat.mod_eq_of_lt (by omega)]
      omega
  · rw [origin_of_le h, origin_of_le (by omega), if_neg (by omega)]
    omega

/-- A copy that does not go into its own range takes each unit from where it stands. -/
theorem origin_eq_add {p q m n : Nat} (h : p ≤ q ∨ q + n ≤ p) (hm : m < n) :
    origin p q m = q + m := by
  rcases Nat.lt_or_ge q p with hlt | hge
  · rw [origin_of_lt hlt, Nat.mod_eq_of_lt (by omega)]
  · exact origin_of_le hge m

/-- **What a copy within a region puts at each place**, in terms of what was there before. -/
theorem getElem?_copyWithin (n : Nat) : ∀ {r : Region} {p q m : Nat},
    p + n ≤ r.cells.size → q + n ≤ r.cells.size → m < n →
    (r.copyWithin p q n).cells[p + m]? = r.cells[origin p q m]? := by
  -- Induction on the number of units.  The first one is stored, and what remains is a copy in
  -- the region that has it.
  induction n with
  | zero =>
      intro r p q m hp hq hm
      omega
  | succ n ih =>
      intro r p q m hp hq hm
      have hu : r.cells[q]? = some r.cells[q] := Array.getElem?_eq_getElem (by omega)
      rw [copyWithin_succ hu]
      cases m with
      | zero =>
          show (((r.put p r.cells[q]).copyWithin (p + 1) (q + 1) n).cells[p]?) = _
          rw [getElem?_copyWithin_outside n (by omega), getElem?_put_self _ (by omega),
            origin_zero, hu]
      | succ m =>
          have hrest := ih (r := r.put p r.cells[q]) (p := p + 1) (q := q + 1) (m := m)
            (by rw [size_put]; omega) (by rw [size_put]; omega) (by omega)
          rw [show p + (m + 1) = p + 1 + m by omega, hrest, origin_succ]
          split
          · next horigin => rw [horigin, getElem?_put_self _ (by omega), hu]
          · next horigin => exact getElem?_put_of_ne _ (Ne.symm horigin)

theorem covers_iff {lo hi : Nat} : r.covers lo hi = true ↔ lo ≤ hi ∧ hi ≤ r.capacity := by
  simp [covers]

/-- `r'` is `r` with the `n` units that `read` finds at `p` and behind it. -/
structure Copied (r : Region) (p n : Nat) (read : Nat → Option CodeUnit) (r' : Region) : Prop where
  ownership : r'.ownership = r.ownership
  capacity : r'.capacity = r.capacity
  copied : ∀ m < n, r'.load? (p + m) = read m
  kept : ∀ j, j < p ∨ p + n ≤ j → r'.load? j = r.load? j

theorem Copied.congr {n : Nat} {read read' : Nat → Option CodeUnit} (h : Copied r p n read r')
    (hread : ∀ m < n, read m = read' m) : Copied r p n read' r' :=
  ⟨h.ownership, h.capacity, fun m hm => (h.copied m hm).trans (hread m hm), h.kept⟩

/-- **A copy within a region.** -/
theorem copied_within {n : Nat} (hp : p + n ≤ r.capacity) (hq : q + n ≤ r.capacity) :
    Copied r p n (fun m => r.load? (origin p q m)) (r.copyWithin p q n) := by
  have hsteady := steady_copyWithin n p q
  have hsize := r.capacity_le_size
  refine ⟨hsteady.ownership r, hsteady.capacity r, fun m hm => ?_, fun j hj => ?_⟩
  · exact load?_congr (hsteady.ownership r)
      (getElem?_copyWithin n (by omega) (by omega) hm)
  · exact load?_congr (hsteady.ownership r) (getElem?_copyWithin_outside n hj)

/-- **A copy from another region.** -/
theorem copied_between {o : Region} {n : Nat} (hp : p + n ≤ r.capacity)
    (hq : q + n ≤ o.capacity) :
    Copied r p n (fun m => o.load? (q + m)) (r.write p (o.slice q (q + n))) := by
  have hsteady := steady_write p (o.slice q (q + n))
  have hsize := r.capacity_le_size
  have hsizeo := o.capacity_le_size
  have hlength : (o.slice q (q + n)).length = n := by
    simp only [slice, Array.length_toList, Array.size_extract]
    omega
  refine ⟨hsteady.ownership r, hsteady.capacity r, fun m hm => ?_, fun j hj => ?_⟩
  · have hcapacity : (r.write p (o.slice q (q + n))).capacity = r.capacity := hsteady.capacity r
    rw [load?_of_lt (by omega), load?_of_lt (by omega),
      getElem?_write_self _ (by omega) (by omega)]
    simp only [slice, Array.getElem?_toList, Array.getElem?_extract]
    rw [if_pos (by omega)]
  · exact load?_congr (hsteady.ownership r) (getElem?_write _ (by omega))

end Region

/-! ## §3. The loop. -/

namespace Storing

variable {rs : Array Region} {r o : Region} {i k : Nat}

/-- **The loop within one region.** -/
theorem copyEach_within (n : Nat) : ∀ {rs : Array Region} {r : Region} {p q : Nat},
    rs[i]? = some r → p + n ≤ r.capacity → q + n ≤ r.capacity →
    copyEach i p i q n rs = .ok () (rs.modify i fun _ => r.copyWithin p q n) := by
  induction n with
  | zero =>
      intro rs r p q hr hp hq
      show EStateM.Result.ok () rs = .ok () (rs.modify i fun _ => r)
      rw [modify_self hr]
  | succ n ih =>
      intro rs r p q hr hp hq
      obtain ⟨u, hu⟩ := Region.exists_load? (r := r) (i := q) (by omega)
      have hcell : r.cells[q]? = some u := by rw [← Region.load?_of_lt (by omega), hu]
      rw [copyEach_succ hr hr hu (by omega), Region.copyWithin_succ hcell]
      rw [ih (getElem?_modify_self hr) (by rw [Region.capacity_put]; omega)
        (by rw [Region.capacity_put]; omega), modify_modify]

/-- **The loop from one region to another.** -/
theorem copyEach_between (hne : k ≠ i) (n : Nat) :
    ∀ {rs : Array Region} {r : Region} {p q : Nat},
    rs[i]? = some r → rs[k]? = some o → p + n ≤ r.capacity → q + n ≤ o.capacity →
    copyEach i p k q n rs = .ok () (rs.modify i fun _ => r.write p (o.slice q (q + n))) := by
  induction n with
  | zero =>
      intro rs r p q hr ho hp hq
      have hnone : o.slice q (q + 0) = [] := by simp [Region.slice]
      rw [hnone]
      show EStateM.Result.ok () rs = .ok () (rs.modify i fun _ => r)
      rw [modify_self hr]
  | succ n ih =>
      intro rs r p q hr ho hp hq
      obtain ⟨u, hu⟩ := Region.exists_load? (r := o) (i := q) (by omega)
      have hcell : o.cells[q]? = some u := by rw [← Region.load?_of_lt (by omega), hu]
      -- The region that is read is not the one that changes.
      have ho' : (rs.modify i fun _ => r.put p u)[k]? = some o := by
        rw [Array.getElem?_modify, if_neg (Ne.symm hne), ho]
      rw [copyEach_succ hr ho hu (by omega), Region.slice_succ hcell]
      rw [ih (getElem?_modify_self hr) ho' (by rw [Region.capacity_put]; omega) (by omega),
        modify_modify]
      rfl

theorem check_eq (hr : rs[i]? = some r) (lo hi : Nat) :
    check i lo hi rs = if r.covers lo hi then .ok () rs else .error .range rs := by
  simp only [check, hr, Option.any_some]

/-- **With both ranges in their regions, a copy is the loop.** -/
theorem copyRange_eq (hr : rs[i]? = some r) (ho : rs[k]? = some o) {p lo hi : Nat}
    (hp : p + (hi - lo) ≤ r.capacity) (hlo : lo ≤ hi) (hhi : hi ≤ o.capacity) :
    copyRange i p k lo hi rs = copyEach i p k lo (hi - lo) rs := by
  show EStateM.bind (check i p (p + (hi - lo))) _ rs = _
  rw [EStateM.bind, check_eq hr, if_pos (Region.covers_eq (Nat.le_add_right _ _) hp)]
  show EStateM.bind (check k lo hi) _ rs = _
  rw [EStateM.bind, check_eq ho, if_pos (Region.covers_eq hlo hhi)]

/-- **With one of them outside, it stops before it stores anything.** -/
theorem copyRange_outside (hr : rs[i]? = some r) (ho : rs[k]? = some o) {p lo hi : Nat}
    (h : ¬ (p + (hi - lo) ≤ r.capacity ∧ lo ≤ hi ∧ hi ≤ o.capacity)) :
    copyRange i p k lo hi rs = .error .range rs := by
  show EStateM.bind (check i p (p + (hi - lo))) _ rs = _
  rw [EStateM.bind, check_eq hr]
  split
  · next hrs hcheck =>
      split at hcheck
      · next hp =>
          cases hcheck
          show EStateM.bind (check k lo hi) _ rs = _
          rw [EStateM.bind, check_eq ho, if_neg]
          intro hrange
          exact h ⟨(Region.covers_iff.mp hp).2, Region.covers_iff.mp hrange⟩
      · cases hcheck
  · next hcheck =>
      split at hcheck
      · cases hcheck
      · cases hcheck
        rfl

end Storing

/-! ## §4. A step of a session. -/

namespace Workspace

open Region (Copied)

variable {w : Workspace} {g source : String} {i k : Nat} {r o : Region}

theorem region_eq_ok (h : w.region g = .ok (i, r)) : w.regions[i]? = some r := by
  unfold region at h
  split at h
  · cases h
  · split at h
    · next hr =>
        cases h
        exact hr
    · cases h

theorem step_copyFrom (hr : w.region g = .ok (i, r)) (ho : w.region source = .ok (k, o))
    (p lo hi : Nat) :
    w.step (.access g (.copyFrom p source lo hi)) =
      match if k = i then r.copyWithin? p lo hi else r.copyFrom? p o lo hi with
      | some r' => .ok (.done, { w with regions := w.regions.modify i fun _ => r' })
      | none => .error .outOfRange := by
  simp only [step, hr, access, ho]
  rfl

/-- **A copy is exact, also onto its own range.**  It goes to `p` in one region, from the range
`lo … hi - 1` of another or the same region.

1. If both ranges lie in their regions, the step succeeds and does what the loop does.  From
   another region the range arrives as it is there, and so it does within one region that is
   not overwritten before it is read.  Else the units in front of `p` are repeated.  All other
   units are as they were.
2. Otherwise the loop stops before it has stored anything, and the step is refused. -/
theorem copy_exactly (hr : w.region g = .ok (i, r)) (ho : w.region source = .ok (k, o))
    (p lo hi : Nat) :
    (p + (hi - lo) ≤ r.capacity ∧ lo ≤ hi ∧ hi ≤ o.capacity →
      ∃ r',
        Storing.copyRange i p k lo hi w.regions = .ok () (w.regions.modify i fun _ => r') ∧
        w.step (.access g (.copyFrom p source lo hi)) =
          .ok (.done, { w with regions := w.regions.modify i fun _ => r' }) ∧
        (k ≠ i → Copied r p (hi - lo) (fun m => o.load? (lo + m)) r') ∧
        (k = i → p ≤ lo ∨ hi ≤ p → Copied r p (hi - lo) (fun m => r.load? (lo + m)) r') ∧
        (k = i → lo < p → p < hi →
          Copied r p (hi - lo) (fun m => r.load? (lo + m % (p - lo))) r')) ∧
    (¬ (p + (hi - lo) ≤ r.capacity ∧ lo ≤ hi ∧ hi ≤ o.capacity) →
      Storing.copyRange i p k lo hi w.regions = .error .range w.regions ∧
      w.step (.access g (.copyFrom p source lo hi)) = .error .outOfRange ∧
      w.run [.access g (.copyFrom p source lo hi)] = w) := by
  have hri := region_eq_ok hr
  have hok := region_eq_ok ho
  have hcovers : (r.covers p (p + (hi - lo)) && o.covers lo hi) = true ↔
      p + (hi - lo) ≤ r.capacity ∧ lo ≤ hi ∧ hi ≤ o.capacity := by
    rw [Bool.and_eq_true, Region.covers_iff, Region.covers_iff,
      and_iff_right (Nat.le_add_right _ _)]
  have hstep := step_copyFrom hr ho p lo hi
  constructor
  · rintro ⟨hp, hlo, hhi⟩
    have hinside := hcovers.mpr ⟨hp, hlo, hhi⟩
    have hend : lo + (hi - lo) = hi := Nat.add_sub_of_le hlo
    by_cases hk : k = i
    · subst hk
      obtain rfl : r = o := Option.some.inj (hri.symm.trans hok)
      have hcopied := Region.copied_within (q := lo) hp (by omega)
      refine ⟨r.copyWithin p lo (hi - lo), ?_, ?_, fun h => absurd rfl h, ?_, ?_⟩
      · rw [Storing.copyRange_eq hri hok hp hlo hhi,
          Storing.copyEach_within (hi - lo) hri hp (by omega)]
      · rw [hstep, if_pos rfl, Region.copyWithin?, if_pos hinside]
      · intro _ hapart
        refine hcopied.congr fun m hm => ?_
        rw [Region.origin_eq_add (by omega) hm]
      · intro _ hlt _
        refine hcopied.congr fun m _ => ?_
        rw [Region.origin_of_lt hlt]
    · refine ⟨r.write p (o.slice lo hi), ?_, ?_, fun _ => ?_, fun h => absurd h hk,
        fun h => absurd h hk⟩
      · rw [Storing.copyRange_eq hri hok hp hlo hhi,
          Storing.copyEach_between hk (hi - lo) hri hok hp (by omega), hend]
      · rw [hstep, if_neg hk, Region.copyFrom?, if_pos hinside]
      · have hcopied := Region.copied_between (q := lo) hp (show lo + (hi - lo) ≤ o.capacity by omega)
        rwa [hend] at hcopied
  · intro hout
    have hrefused : w.step (.access g (.copyFrom p source lo hi)) = .error .outOfRange := by
      rw [hstep]
      by_cases hk : k = i
      · subst hk
        obtain rfl : r = o := Option.some.inj (hri.symm.trans hok)
        rw [if_pos rfl, Region.copyWithin?, if_neg (mt hcovers.mp hout)]
      · rw [if_neg hk, Region.copyFrom?, if_neg (mt hcovers.mp hout)]
    refine ⟨Storing.copyRange_outside hri hok hout, hrefused, ?_⟩
    simp only [run, List.foldl_cons, List.foldl_nil, hrefused]

/-- A session with one region. -/
def sixUnits : Workspace :=
  Workspace.run {} [.allocate "g" 6, .access "g" (.storeSlice 0 [1, 2, 3, 4, 5, 6])]

/-- Two units are repeated, up to the end of the region.  Two places further there is no room. -/
theorem copy_exactly_repeated :
    sixUnits.region "g" = .ok (0, ⟨#[1, 2, 3, 4, 5, 6], .owned⟩) ∧
    (2 + (4 - 0) ≤ 6 ∧ 0 ≤ 4 ∧ 4 ≤ 6) ∧
    (∃ r', sixUnits.step (.access "g" (.copyFrom 2 "g" 0 4)) =
        .ok (.done, { sixUnits with regions := sixUnits.regions.modify 0 fun _ => r' }) ∧
      Copied ⟨#[1, 2, 3, 4, 5, 6], .owned⟩ 2 4
        (fun m => Region.load? ⟨#[1, 2, 3, 4, 5, 6], .owned⟩ (0 + m % 2)) r') ∧
    ¬ (4 + (4 - 0) ≤ 6 ∧ 0 ≤ 4 ∧ 4 ≤ 6) ∧
    sixUnits.step (.access "g" (.copyFrom 4 "g" 0 4)) = .error .outOfRange := by
  have hregion : sixUnits.region "g" = .ok (0, ⟨#[1, 2, 3, 4, 5, 6], .owned⟩) := by rfl
  have hinside : 2 + (4 - 0) ≤ 6 ∧ 0 ≤ 4 ∧ 4 ≤ 6 := by decide
  have houtside : ¬ (4 + (4 - 0) ≤ 6 ∧ 0 ≤ 4 ∧ 4 ≤ 6) := by decide
  obtain ⟨r', -, hstep, -, -, hcopied⟩ := (copy_exactly hregion hregion 2 0 4).1 hinside
  obtain ⟨-, hrefused, -⟩ := (copy_exactly hregion hregion 4 0 4).2 houtside
  exact ⟨hregion, hinside, ⟨r', hstep, hcopied rfl (by decide) (by decide)⟩, houtside, hrefused⟩

end Workspace

end ValueText
