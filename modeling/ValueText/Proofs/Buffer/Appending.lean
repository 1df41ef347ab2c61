/-
  ValueText.Proofs.Buffer.Appending — what an append does to a builder.

  Numerals, runs, copies of builders and encoded texts are written to the memory
  in different ways, after lengths that are computed in different ways.  All of
  them come down to one operation, the append of a list of units, and that one
  adds the list behind the content or counts an overflow.

  Main results:

    • `appendInt_eq_appendNumeral`, `appendRepeated_eq_appendUnits`,
      `appendBuilder_eq_appendUnits`
                            each append is the append of the units it stands for;
    • `lands_appendUnits`   an append that fits: what is new, and the frame;
    • `appendUnits_of_lt`   one that does not fit;
    • `lands_appendPieces`, `restored_appendPieces`
                            a text in pieces is written as a whole or taken back;
    • `terminate_ok`        a null termination that succeeds.
-/
import ValueText.Proofs.Buffer.Bounded
import ValueText.Proofs.Text.Numerals

namespace ValueText

/-! ## §1. Memory behind a place. -/

namespace Region

theorem getElem?_put_of_ne {r : Region} {i j : Nat} (u : CodeUnit) (h : i ≠ j) :
    (r.put i u).cells[j]? = r.cells[j]? := Array.getElem?_setIfInBounds_ne h

theorem getElem?_put_self {r : Region} {i : Nat} (u : CodeUnit) (h : i < r.cells.size) :
    (r.put i u).cells[i]? = some u := Array.getElem?_setIfInBounds_self_of_lt h

theorem getElem?_write (us : List CodeUnit) :
    ∀ {r : Region} {i j : Nat}, j < i ∨ i + us.length ≤ j →
      (r.write i us).cells[j]? = r.cells[j]? := by
  induction us with
  | nil => intro r i j _; rfl
  | cons u us ih =>
      intro r i j h
      simp only [List.length_cons] at h
      show ((r.put i u).write (i + 1) us).cells[j]? = r.cells[j]?
      rw [ih (by omega), getElem?_put_of_ne u (by omega)]

theorem slice_put_end {r : Region} {i : Nat} (u : CodeUnit) (h : i < r.cells.size) :
    (r.put i u).slice 0 (i + 1) = r.slice 0 i ++ [u] := by
  have hu : (r.put i u).cells.toList[i]? = some u := by
    rw [Array.getElem?_toList]
    exact getElem?_put_self u h
  rw [slice_zero, List.take_add_one, hu, ← slice_zero, slice_put u (Nat.le_refl i)]
  rfl

/-- What is written into the memory stands behind what was there. -/
theorem slice_write_end (us : List CodeUnit) :
    ∀ {r : Region} {i : Nat}, i + us.length ≤ r.cells.size →
      (r.write i us).slice 0 (i + us.length) = r.slice 0 i ++ us := by
  induction us with
  | nil => intro r i _; simp [write]
  | cons u us ih =>
      intro r i h
      simp only [List.length_cons] at h ⊢
      show ((r.put i u).write (i + 1) us).slice 0 (i + (us.length + 1)) = _
      rw [show i + (us.length + 1) = i + 1 + us.length by omega, ih (by rw [size_put]; omega),
        slice_put_end u (by omega), List.append_assoc]
      rfl

/-- Memories that agree unit by unit in front of a place have the same slice there. -/
theorem slice_congr {r r' : Region} {n : Nat} (h : ∀ i < n, r'.cells[i]? = r.cells[i]?) :
    r'.slice 0 n = r.slice 0 n := by
  rw [slice_zero, slice_zero]
  refine List.ext_getElem? fun i => ?_
  rw [List.getElem?_take, List.getElem?_take]
  split
  · next hi => rw [Array.getElem?_toList, Array.getElem?_toList, h i hi]
  · rfl

theorem put_comm {r : Region} {i j : Nat} (u v : CodeUnit) (h : i ≠ j) :
    (r.put i u).put j v = (r.put j v).put i u := by
  simp only [put, Array.setIfInBounds_comm u v h]

theorem write_put_comm (us : List CodeUnit) (v : CodeUnit) :
    ∀ {r : Region} {i j : Nat}, i + us.length ≤ j →
      (r.put j v).write i us = (r.write i us).put j v := by
  induction us with
  | nil => intro r i j _; rfl
  | cons u us ih =>
      intro r i j h
      simp only [List.length_cons] at h
      show ((r.put j v).put i u).write (i + 1) us = ((r.put i u).write (i + 1) us).put j v
      rw [put_comm v u (by omega), ih (by omega)]

end Region

/-! ## §2. Every append is the append of its units. -/

namespace Builder

/-- The `count` last digits of `n`. -/
def lastDigits : (count n : Nat) → List CodeUnit
  | 0, _ => []
  | count + 1, n => lastDigits count (n / 10) ++ [Numeral.digitUnit (n % 10)]

theorem length_lastDigits (count : Nat) : ∀ n, (lastDigits count n).length = count := by
  induction count with
  | zero => intro n; rfl
  | succ count ih => intro n; rw [lastDigits, List.length_append, ih, List.length_singleton]

/-- As many digits as the numeral has are the numeral. -/
theorem lastDigits_digits (n : Nat) :
    lastDigits (Numeral.digits n).length n = (Numeral.digits n).map Numeral.digitUnit := by
  induction n using Nat.strongRecOn with
  | _ n ih =>
    by_cases h : n < 10
    · rw [Numeral.digits_small h]
      show [Numeral.digitUnit (n % 10)] = [Numeral.digitUnit n]
      rw [Nat.mod_eq_of_lt h]
    · rw [Numeral.digits_large h, List.length_append, List.map_append, ← ih (n / 10) (by omega)]
      rfl

/-- Digits that are stored from the last place down stand in order. -/
theorem writeDigits_eq_write (count : Nat) : ∀ (r : Region) (i n : Nat),
    writeDigits r (i + count) count n = r.write i (lastDigits count n) := by
  induction count with
  | zero => intro r i n; rfl
  | succ count ih =>
      intro r i n
      show writeDigits (r.put (i + count) _) (i + count) count (n / 10) = _
      have hbehind : i + (lastDigits count (n / 10)).length ≤ i + count := by
        have hlength := length_lastDigits count (n / 10)
        omega
      rw [ih, Region.write_put_comm _ _ hbehind, lastDigits, Region.write_append,
        length_lastDigits]
      rfl

/-- The append of an integer is an append of units, whatever its width makes of it. -/
theorem appendInt_eq_appendUnits (b : Builder) (w : IntWidth) (n : Int) :
    b.appendInt w n = b.appendUnits
      ((if n < 0 then [0x2D] else []) ++ lastDigits (w.digitCount n.natAbs) n.natAbs) := by
  unfold appendInt appendUnits
  by_cases hn : n < 0
  · simp only [if_pos hn, List.length_append, List.length_singleton, length_lastDigits]
    congr 1
    funext r
    rw [writeDigits_eq_write, Region.write_append]
    rfl
  · simp only [if_neg hn, List.nil_append, length_lastDigits, Nat.zero_add, Nat.add_zero]
    congr 1
    funext r
    rw [writeDigits_eq_write]

/-- **The append of an integer of the width is the append of its numeral.** -/
theorem appendInt_eq_appendNumeral (b : Builder) {w : IntWidth} {n : Int} (h : w.Holds n) :
    b.appendInt w n = b.appendUnits (Numeral.units n) := by
  rw [appendInt_eq_appendUnits, IntWidth.digitCount_eq_length h, lastDigits_digits]
  rfl

theorem appendRepeated_eq_appendUnits (b : Builder) (u : CodeUnit) (count : Nat) :
    b.appendRepeated u count = b.appendUnits (List.replicate count u) := by
  rw [appendRepeated, appendUnits, List.length_replicate]

theorem appendBuilder_eq_appendUnits (b : Builder) {other : Builder} (h : other.Bounded) :
    b.appendBuilder other = b.appendUnits other.units := by
  rw [appendBuilder, appendUnits, h.units_length]
  rfl

/-! ## §3. One append. -/

/-- The units `us` stand behind the content of `b` and are content of `b'`; nothing else
has changed, and no other unit of the memory. -/
structure Lands (b : Builder) (us : List CodeUnit) (b' : Builder) : Prop where
  units : b'.units = b.units ++ us
  length : b'.length = b.length + us.length
  memory : ∀ i, i < b.length ∨ b.length + us.length ≤ i →
    b'.region.cells[i]? = b.region.cells[i]?
  ownership : b'.region.ownership = b.region.ownership
  rest : b' = { b with
    length := b'.length
    published := { b.published with region := b'.region, length := b'.published.length } }

/-- The answer to an append of `n` units that do not fit. -/
def refusal (b : Builder) (n : Nat) : Except Overflow Bool :=
  match b.policy with
  | .report => .ok false
  | .error => .error ⟨n, b.remaining⟩

/-- A builder that has refused an append. -/
def refused (b : Builder) : Builder := { b with overflows := b.overflows + 1 }

variable {b b' : Builder} {us vs : List CodeUnit}

theorem overflow_eq (b : Builder) (n : Nat) :
    b.overflow n b.remaining = (b.refusal n, b.refused) := by
  unfold overflow refusal refused
  cases b.policy <;> rfl

theorem pending_reserve (b : Builder) (count : Nat) (fill : Region → Region) :
    (b.reserve count fill).2.pending = b.pending := by
  unfold reserve overflow
  split
  · rfl
  · split <;> rfl

/-- **An append that fits** puts its units behind the content. -/
theorem lands_appendUnits (h : b.Bounded) (hfit : us.length ≤ b.remaining) :
    (b.appendUnits us).1 = .ok true ∧ b.Lands us (b.appendUnits us).2 := by
  have hl := h.length
  have hc := h.capacity
  have hroom : us.length ≤ b.capacity - b.length := hfit
  rw [appendUnits, reserve, if_pos hroom]
  refine ⟨rfl, Region.slice_write_end us ?_, rfl, ?_, Region.ownership_write us _ _, rfl⟩
  · show b.length + us.length ≤ b.region.cells.size
    omega
  · intro i hi
    exact Region.getElem?_write us hi

/-- **An append that does not fit** changes the count of overflows. -/
theorem appendUnits_of_lt (hfull : b.remaining < us.length) :
    b.appendUnits us = (b.refusal us.length, b.refused) := by
  have hroom : ¬ us.length ≤ b.capacity - b.length := Nat.not_le_of_lt hfull
  rw [appendUnits, reserve, if_neg hroom]
  exact b.overflow_eq _

/-- An append answers `true` exactly if its units fit. -/
theorem appendUnits_ok_iff (h : b.Bounded) (us : List CodeUnit) :
    (b.appendUnits us).1 = .ok true ↔ us.length ≤ b.remaining := by
  refine ⟨fun hok => Nat.le_of_not_lt fun hfull => ?_, fun hfit => (lands_appendUnits h hfit).1⟩
  rw [appendUnits_of_lt hfull] at hok
  unfold refusal at hok
  split at hok <;> cases hok

/-- The append of no units leaves the builder as it is. -/
theorem appendUnits_nil (h : b.Consistent) : b.appendUnits [] = (.ok true, b) := by
  have hpublished : { b.published with length := b.length } = b.published := by
    rw [← h.length]
  show (Except.ok true, { b with published := { b.published with length := b.length } }) = _
  rw [hpublished]

/-- Units that fit together can be appended in two parts. -/
theorem appendUnits_append (us vs : List CodeUnit) (hfit : (us ++ vs).length ≤ b.remaining) :
    b.appendUnits (us ++ vs) = (b.appendUnits us).2.appendUnits vs := by
  have hroom : us.length + vs.length ≤ b.capacity - b.length := by
    rwa [List.length_append] at hfit
  have hfirst : (b.appendUnits us).2 =
      (b.withRegion (b.region.write b.length us)).commit (b.length + us.length) := by
    rw [appendUnits, reserve, if_pos (Nat.le_trans (Nat.le_add_right _ _) hroom)]
  have hsecond : vs.length ≤ b.capacity - (b.length + us.length) := by omega
  rw [hfirst, appendUnits, reserve, if_pos (show _ ≤ b.capacity - b.length from hfit)]
  show _ = if vs.length ≤ b.capacity - (b.length + us.length) then _ else _
  rw [if_pos hsecond, Region.write_append, List.length_append, ← Nat.add_assoc]
  rfl

namespace Lands

theorem nil (b : Builder) : b.Lands [] b :=
  ⟨(List.append_nil _).symm, rfl, fun _ _ => rfl, rfl, rfl⟩

theorem trans {b₁ b₂ b₃ : Builder} (h₁ : b₁.Lands us b₂) (h₂ : b₂.Lands vs b₃) :
    b₁.Lands (us ++ vs) b₃ := by
  have hl := h₁.length
  refine ⟨?_, ?_, ?_, h₂.ownership.trans h₁.ownership, ?_⟩
  · rw [h₂.units, h₁.units, List.append_assoc]
  · rw [h₂.length, hl, List.length_append, Nat.add_assoc]
  · intro i hi
    rw [List.length_append] at hi
    rw [h₂.memory i (by omega), h₁.memory i (by omega)]
  · rw [h₂.rest, h₁.rest]

theorem capacity (h : b.Lands us b') : b'.capacity = b.capacity := by rw [h.rest]

theorem version (h : b.Lands us b') : b'.version = b.version := by rw [h.rest]

theorem policy (h : b.Lands us b') : b'.policy = b.policy := by rw [h.rest]

theorem overflows (h : b.Lands us b') : b'.overflows = b.overflows := by rw [h.rest]

theorem pending (h : b.Lands us b') : b'.pending = b.pending := by rw [h.rest]

theorem remaining (h : b.Lands us b') : b'.remaining = b.remaining - us.length := by
  rw [Builder.remaining, Builder.remaining, h.capacity, h.length, Nat.sub_add_eq]

end Lands

/-! ## §4. Writing in pieces. -/

/-- `b'` has the content of `b`, maybe with more behind it, and has counted `n` overflows
since. -/
structure Ahead (b : Builder) (n : UInt64) (b' : Builder) : Prop where
  length : b.length ≤ b'.length
  memory : ∀ i < b.length, b'.region.cells[i]? = b.region.cells[i]?
  version : b'.version = b.version
  capacity : b'.capacity = b.capacity
  policy : b'.policy = b.policy
  overflows : b'.overflows = b.overflows + n

theorem Ahead.trans {b₁ b₂ b₃ : Builder} {m n : UInt64} (h₁ : Ahead b₁ m b₂) (h₂ : Ahead b₂ n b₃) :
    Ahead b₁ (m + n) b₃ := by
  have hl := h₁.length
  refine ⟨Nat.le_trans hl h₂.length, ?_, h₂.version.trans h₁.version,
    h₂.capacity.trans h₁.capacity, h₂.policy.trans h₁.policy, ?_⟩
  · intro i hi
    rw [h₂.memory i (by omega), h₁.memory i hi]
  · rw [h₂.overflows, h₁.overflows, UInt64.add_assoc]

theorem Lands.ahead (h : b.Lands us b') : Ahead b 0 b' := by
  refine ⟨?_, fun i hi => h.memory i (.inl hi), h.version, h.capacity, h.policy, ?_⟩
  · rw [h.length]
    exact Nat.le_add_right ..
  · rw [h.overflows, UInt64.add_zero]

theorem ahead_refused (b : Builder) : Ahead b 1 b.refused :=
  ⟨Nat.le_refl _, fun _ _ => rfl, rfl, rfl, rfl, rfl⟩

/-- `b'` has the content and the capacity of `b` still, and the memory in front of the
end of it; `n` overflows were counted in between. -/
structure Restored (b : Builder) (n : UInt64) (b' : Builder) : Prop where
  units : b'.units = b.units
  length : b'.length = b.length
  memory : ∀ i < b.length, b'.region.cells[i]? = b.region.cells[i]?
  version : b'.version = b.version
  capacity : b'.capacity = b.capacity
  policy : b'.policy = b.policy
  overflows : b'.overflows = b.overflows + n

@[simp] theorem region_truncate (b : Builder) (n : Nat) : (b.truncate n).region = b.region := by
  unfold truncate; split <;> rfl

@[simp] theorem length_truncate (b : Builder) (n : Nat) :
    (b.truncate n).length = min n b.length := by
  unfold truncate
  split
  · next h =>
      rw [Nat.min_eq_left (Nat.le_of_lt h)]
      rfl
  · next h => rw [Nat.min_eq_right (Nat.le_of_not_lt h)]

/-- **What came behind the content is taken back** by cutting the content to its old length. -/
theorem Ahead.restored {n : UInt64} (h : Ahead b n b') : Restored b n (b'.truncate b.length) := by
  have hlen : (b'.truncate b.length).length = b.length := by
    rw [length_truncate, Nat.min_eq_left h.length]
  refine ⟨?_, hlen, ?_, ?_, ?_, ?_, ?_⟩
  · rw [units, hlen, region_truncate, Region.slice_congr h.memory]
    rfl
  · rw [region_truncate]
    exact h.memory
  all_goals unfold truncate; split
  · exact h.version
  · exact h.version
  · exact h.capacity
  · exact h.capacity
  · exact h.policy
  · exact h.policy
  · exact h.overflows
  · exact h.overflows

theorem Restored.forget {n : UInt64} (h : Restored b n b') (p : Option Overflow) :
    Restored b n { b' with pending := p } :=
  ⟨h.units, h.length, h.memory, h.version, h.capacity, h.policy, h.overflows⟩

/-- The units of a text in pieces. -/
def unitsOfPieces (pieces : List String) : List CodeUnit := pieces.flatMap CodeUnit.encode

/-- The overflow of one piece among several, of which a builder had room for the first. -/
def OfPiece (b : Builder) (e : Overflow) : Prop :=
  e.available < e.requested ∧ e.available ≤ b.remaining

/-- What is pending when a piece has not fitted. -/
def Noted (b b' : Builder) : Prop :=
  match b.policy with
  | .report => b'.pending = b.pending
  | .error => ∃ e, b'.pending = some e ∧ OfPiece b e

theorem lands_sink {s : String} (h : b.Bounded) (hfit : (CodeUnit.encode s).length ≤ b.remaining) :
    (b.sink s).1 = true ∧ b.Lands (CodeUnit.encode s) (b.sink s).2 := by
  obtain ⟨hok, hlands⟩ := lands_appendUnits h hfit
  unfold sink appendText
  split
  · next v b' he =>
      rw [he] at hok hlands
      cases hok
      exact ⟨rfl, hlands⟩
  · next e b' he =>
      rw [he] at hok
      cases hok

theorem ahead_sink {s : String} (hfull : b.remaining < (CodeUnit.encode s).length) :
    (b.sink s).1 = false ∧ Ahead b 1 (b.sink s).2 ∧ Noted b (b.sink s).2 := by
  have happ : b.appendText s = (b.refusal (CodeUnit.encode s).length, b.refused) :=
    appendUnits_of_lt hfull
  have hr := b.ahead_refused
  rw [sink, happ, Noted]
  cases hp : b.policy with
  | report =>
      simp only [refusal, hp]
      exact ⟨trivial, hr, rfl⟩
  | error =>
      simp only [refusal, hp]
      exact ⟨trivial, ⟨hr.length, hr.memory, rfl, rfl, rfl, rfl⟩, _, rfl, hfull, Nat.le_refl _⟩

/-- Pieces that fit all together are all written. -/
theorem lands_sinkAll (complete : Bool) (pieces : List String) : ∀ {b : Builder}, b.Bounded →
    (unitsOfPieces pieces).length ≤ b.remaining →
    (b.sinkAll pieces complete).1 = complete ∧
      b.Lands (unitsOfPieces pieces) (b.sinkAll pieces complete).2 := by
  induction pieces with
  | nil => intro b _ _; exact ⟨rfl, .nil b⟩
  | cons s rest ih =>
      intro b h hfit
      simp only [unitsOfPieces, List.flatMap_cons, List.length_append] at hfit ⊢
      obtain ⟨hok, hlands⟩ := lands_sink (s := s) h (by omega)
      have hb := h.sink s
      unfold sinkAll
      split
      · next b₁ he =>
          rw [he] at hlands hb
          obtain ⟨hres, hrest⟩ := ih (b := b₁) hb (by rw [hlands.remaining, unitsOfPieces]; omega)
          exact ⟨hres, hlands.trans hrest⟩
      · next b₁ he =>
          rw [he] at hok
          cases hok

/-- Pieces that do not fit all together come to a halt at the first one without room. -/
theorem ahead_sinkAll (complete : Bool) (pieces : List String) : ∀ {b : Builder}, b.Bounded →
    b.remaining < (unitsOfPieces pieces).length →
    (b.sinkAll pieces complete).1 = false ∧ Ahead b 1 (b.sinkAll pieces complete).2 ∧
      Noted b (b.sinkAll pieces complete).2 := by
  -- Induction on the pieces: either the first one is too long, or the rest is.
  induction pieces with
  | nil => intro b _ hfull; simp [unitsOfPieces] at hfull
  | cons s rest ih =>
      intro b h hfull
      simp only [unitsOfPieces, List.flatMap_cons, List.length_append] at hfull
      have hb := h.sink s
      unfold sinkAll
      by_cases hs : (CodeUnit.encode s).length ≤ b.remaining
      · obtain ⟨hok, hlands⟩ := lands_sink h hs
        split
        · next b₁ he =>
            rw [he] at hlands hb
            have hroom := hlands.remaining
            obtain ⟨hres, hahead, hnoted⟩ := ih (b := b₁) hb (by rw [hroom, unitsOfPieces]; omega)
            refine ⟨hres, by simpa using hlands.ahead.trans hahead, ?_⟩
            unfold Noted at hnoted ⊢
            rw [hlands.policy, hlands.pending] at hnoted
            cases hp : b.policy with
            | report => rw [hp] at hnoted; exact hnoted
            | error =>
                rw [hp] at hnoted
                obtain ⟨e, he, hlt, hle⟩ := hnoted
                exact ⟨e, he, hlt, Nat.le_trans hle (by rw [hroom]; exact Nat.sub_le ..)⟩
        · next b₁ he =>
            rw [he] at hok
            cases hok
      · obtain ⟨hno, hahead⟩ := ahead_sink (Nat.lt_of_not_le hs)
        split
        · next b₁ he =>
            rw [he] at hno
            cases hno
        · next b₁ he =>
            rw [he] at hahead
            exact ⟨rfl, hahead⟩

/-- What follows when writing in pieces has failed. -/
theorem appendPieces_of_failed {pieces : List String} {complete : Bool} {n : UInt64}
    (hno : (b.sinkAll pieces complete).1 = false)
    (hahead : Ahead b n (b.sinkAll pieces complete).2) :
    Restored b n (b.appendPieces pieces complete).2 ∧
      (b.appendPieces pieces complete).1 =
        match (b.sinkAll pieces complete).2.pending with
        | some e => .error e
        | none => .ok false := by
  unfold appendPieces
  split
  · next b' he => rw [he] at hno; cases hno
  · next b' he =>
      rw [he] at hahead
      simp only [he, pending_truncate]
      cases b'.pending with
      | none => exact ⟨hahead.restored, rfl⟩
      | some e => exact ⟨hahead.restored.forget none, rfl⟩

/-- **A text in pieces that fits is written as a whole.** -/
theorem lands_appendPieces {pieces : List String} (h : b.Bounded)
    (hfit : (unitsOfPieces pieces).length ≤ b.remaining) :
    (b.appendPieces pieces true).1 = .ok true ∧
      b.Lands (unitsOfPieces pieces) (b.appendPieces pieces true).2 := by
  obtain ⟨hyes, hlands⟩ := lands_sinkAll true pieces h hfit
  unfold appendPieces
  split
  · next b' he => rw [he] at hlands; exact ⟨rfl, hlands⟩
  · next b' he => rw [he] at hyes; cases hyes

/-- A text that turns out to be unwritable is taken back, without an overflow. -/
theorem restored_appendPieces_incomplete {pieces : List String} (h : b.Bounded)
    (hfit : (unitsOfPieces pieces).length ≤ b.remaining) :
    (b.appendPieces pieces false).1 = (match b.pending with
      | some e => .error e
      | none => .ok false) ∧ Restored b 0 (b.appendPieces pieces false).2 := by
  obtain ⟨hno, hlands⟩ := lands_sinkAll false pieces h hfit
  obtain ⟨hrestored, hanswer⟩ := appendPieces_of_failed hno hlands.ahead
  rw [hlands.pending] at hanswer
  exact ⟨hanswer, hrestored⟩

/-- **A text in pieces that does not fit is taken back**, and one overflow is counted. -/
theorem restored_appendPieces {pieces : List String} (complete : Bool) (h : b.Bounded)
    (hfull : b.remaining < (unitsOfPieces pieces).length) :
    (match b.policy with
      | .report => (b.appendPieces pieces complete).1 = .ok false
      | .error => ∃ e, (b.appendPieces pieces complete).1 = .error e ∧ OfPiece b e) ∧
      Restored b 1 (b.appendPieces pieces complete).2 := by
  obtain ⟨hno, hahead, hnoted⟩ := ahead_sinkAll complete pieces h hfull
  obtain ⟨hrestored, hanswer⟩ := appendPieces_of_failed hno hahead
  refine ⟨?_, hrestored⟩
  unfold Noted at hnoted
  cases hp : b.policy with
  | report =>
      rw [hp] at hnoted
      simp only
      rw [hanswer, hnoted, h.pending hp]
  | error =>
      rw [hp] at hnoted
      obtain ⟨e, he, hpiece⟩ := hnoted
      exact ⟨e, by rw [hanswer, he], hpiece⟩

/-! ## §5. The terminator. -/

theorem Bounded.get?_eq (h : b.Bounded) (hc : 0 < b.capacity) (i : Nat) :
    b.get? i = b.region.cells[i]? := by
  rw [get?, Region.load?, Region.units, if_neg (h.owned hc), Array.getElem?_toList]

/-- **Null termination**: with room a zero is put behind the content; a full builder
refuses, or gives up its last unit for the zero. -/
theorem terminate_ok {v : Bool} (h : b.Bounded) (hok : b.terminate.1 = .ok v) :
    b.terminate.2.units = (if v then b.units else b.units.dropLast) ∧
      (0 < b.capacity → b.terminate.2.get? b.terminate.2.length = some 0) := by
  have hb' := h.terminate
  have hl := h.length
  have hc := h.capacity
  by_cases hroom : b.length < b.capacity
  · simp only [terminate, if_pos hroom] at hok hb' ⊢
    cases hok
    refine ⟨Region.slice_put 0 (Nat.le_refl _), fun hpos => ?_⟩
    rw [hb'.get?_eq hpos]
    exact Region.getElem?_put_self 0 (by omega)
  · cases hp : b.policy with
    | error =>
        simp only [terminate, if_neg hroom, overflow, hp] at hok
        cases hok
    | report =>
        simp only [terminate, if_neg hroom, overflow, hp] at hok hb' ⊢
        by_cases hpos : 0 < b.length
        · -- The last unit makes place for the zero.
          simp only [if_pos hpos] at hok hb' ⊢
          cases hok
          refine ⟨?_, fun hcap => ?_⟩
          · show (b.region.put (b.length - 1) 0).slice 0 (b.length - 1) = b.units.dropLast
            rw [Region.slice_put 0 (Nat.le_refl _), List.dropLast_eq_take, h.units_length, units,
              Region.slice_zero, Region.slice_zero, List.take_take, Nat.min_eq_left (Nat.sub_le ..)]
          · rw [hb'.get?_eq hcap]
            exact Region.getElem?_put_self 0 (by show b.length - 1 < b.region.cells.size; omega)
        · simp only [if_neg hpos] at hok ⊢
          cases hok
          have hnil : b.units = [] := List.eq_nil_of_length_eq_zero (by rw [h.units_length]; omega)
          refine ⟨?_, fun hcap => by omega⟩
          show b.units = b.units.dropLast
          rw [hnil]
          rfl

end Builder
end ValueText
