/-
  ValueText.Proofs.Buffer.Checked — the operations with every check that can stop a program.

  The operations of this layer are defined as if each unit were where they look for
  it.  A program stops instead when an index lies outside an array, when a machine
  word overflows or falls below zero, when an array is larger than the address
  space, or when something that it asserts is false.  Here each operation stands
  once more, with all of these checks in their places: an append subtracts the
  length from the capacity, compares, stores unit by unit or range by range, and
  adds up the new length.

  Every range is checked against the region as a whole, so an end that no machine
  word can hold lies outside like any other.

  A display has one more way to go wrong.  A text that is made by a display takes every piece,
  so a display that fails nevertheless stops the program.

  Main results:

    • `reserveChecked_eq`      an append of a housed builder meets no check that fails, if
                               its memory is filled within the reserved range;
    • `storeDigits_eq`         digits are stored from the reserved end down to exactly
                               the reserved start;
    • `appendIntChecked_eq`    hence an integer of its width passes the assertion
                               on the number of its digits;
    • `readSegmentChecked_eq`  reading a snapshot of at most the units of its region
                               meets no check that fails.
-/
import ValueText.Proofs.Buffer.Appending
import ValueText.Proofs.Buffer.Ownership

namespace ValueText

/-! ## §1. Checks. -/

/-- Why a program stops. -/
inductive Panic
  /-- An index or a range that lies outside an array. -/
  | range
  /-- A machine word that overflows or falls below zero. -/
  | arithmetic
  /-- An array that is larger than the address space. -/
  | capacity
  /-- Something that the program asserts is false. -/
  | assertion
  /-- A display fails while a text is made by it, which no text refuses. -/
  | display
  deriving DecidableEq, Repr

namespace Check

/-- The units of the longest array: it has less than `2 ^ 63` bytes. -/
def maxUnits : Nat := 2 ^ 62 - 1

/-- The sum of two machine words. -/
def add (m n : Nat) : Except Panic Nat := if m + n < 2 ^ 64 then .ok (m + n) else .error .arithmetic

/-- The difference of two machine words. -/
def sub (m n : Nat) : Except Panic Nat := if n ≤ m then .ok (m - n) else .error .arithmetic

/-- Room for an array of `n` units. -/
def room (n : Nat) : Except Panic Unit := if n ≤ maxUnits then .ok () else .error .capacity

/-- The answer of an access that `none` stands for the refusal of. -/
def inside {α : Type} : Option α → Except Panic α
  | some a => .ok a
  | none => .error .range

/-- The answer of a display that `none` stands for the failure of. -/
def displayed {α : Type} : Option α → Except Panic α
  | some a => .ok a
  | none => .error .display

/-- An assertion. -/
def that (c : Prop) [Decidable c] : Except Panic Unit := if c then .ok () else .error .assertion

@[simp] theorem bind_ok {α β : Type} (a : α) (f : α → Except Panic β) :
    (Except.ok a >>= f) = f a := rfl

@[simp] theorem map_ok {α β : Type} (f : α → β) (a : α) :
    (f <$> Except.ok a : Except Panic β) = .ok (f a) := rfl

theorem add_eq {m n : Nat} (h : m + n < 2 ^ 64) : add m n = .ok (m + n) := if_pos h

theorem sub_eq {m n : Nat} (h : n ≤ m) : sub m n = .ok (m - n) := if_pos h

theorem room_eq {n : Nat} (h : n ≤ maxUnits) : room n = .ok () := if_pos h

theorem that_eq {c : Prop} [Decidable c] (h : c) : that c = .ok () := if_pos h

/-- The words of an array that exists do not overflow. -/
theorem lt_word_of_le {n : Nat} (h : n ≤ maxUnits) : n < 2 ^ 64 := by
  have hmax : maxUnits < 2 ^ 64 := by decide
  omega

end Check

/-! ## §2. Memory. -/

namespace Region

/-- Stores units one after another, each by a store of its own. -/
def storeEach (r : Region) (i : Nat) : List CodeUnit → Except Panic Region
  | [] => .ok r
  | u :: us => do
      let r ← Check.inside (r.store? i u)
      r.storeEach (i + 1) us

/-- Stores the digits of `n` in front of `stop`, the last one first, until nothing is left of
`n`.  Answers the place of the first digit, too. -/
def storeDigits (r : Region) (stop n : Nat) : Except Panic (Region × Nat) := do
  let i ← Check.sub stop 1
  let r ← Check.inside (r.store? i (Numeral.digitUnit (n % 10)))
  if _rest : n / 10 = 0 then return (r, i) else storeDigits r i (n / 10)
termination_by n
decreasing_by omega

@[simp] theorem capacity_put (r : Region) (i : Nat) (u : CodeUnit) :
    (r.put i u).capacity = r.capacity := (steady_write i [u]).capacity r

theorem covers_eq {r : Region} {lo hi : Nat} (h : lo ≤ hi) (hi' : hi ≤ r.capacity) :
    r.covers lo hi = true := by
  simp [covers, h, hi']

theorem store?_eq {r : Region} {i : Nat} (h : i < r.capacity) (u : CodeUnit) :
    r.store? i u = some (r.put i u) := if_pos h

theorem storeSlice?_eq {r : Region} {i : Nat} {us : List CodeUnit}
    (h : i + us.length ≤ r.capacity) : r.storeSlice? i us = some (r.write i us) :=
  if_pos (covers_eq (Nat.le_add_right _ _) h)

theorem fill?_eq {r : Region} {i count : Nat} (h : i + count ≤ r.capacity) (u : CodeUnit) :
    r.fill? i (i + count) u = some (r.write i (List.replicate count u)) := by
  rw [fill?, if_pos (covers_eq (Nat.le_add_right _ _) h), Nat.add_sub_cancel_left]

theorem copyTo?_eq {r : Region} {n : Nat} (h : n ≤ r.capacity) :
    r.copyTo? 0 n [] = some (r.slice 0 n) := if_pos (covers_eq (Nat.zero_le _) h)

theorem copyFrom?_eq {r source : Region} {i n : Nat} (h : i + n ≤ r.capacity)
    (hs : n ≤ source.capacity) : r.copyFrom? i source 0 n = some (r.write i (source.slice 0 n)) := by
  rw [copyFrom?, if_pos]
  rw [Nat.sub_zero, covers_eq (Nat.le_add_right _ _) h, covers_eq (Nat.zero_le _) hs]
  rfl

theorem storeEach_eq (us : List CodeUnit) : ∀ {r : Region} {i : Nat},
    i + us.length ≤ r.capacity → r.storeEach i us = .ok (r.write i us) := by
  induction us with
  | nil => intro r i h; rfl
  | cons u us ih =>
      intro r i h
      rw [List.length_cons] at h
      have hrest : (r.put i u).storeEach (i + 1) us = .ok ((r.put i u).write (i + 1) us) :=
        ih (by rw [capacity_put]; omega)
      rw [storeEach, store?_eq (by omega)]
      exact hrest

/-- **Digits are stored from the reserved end down to the reserved start.** -/
theorem storeDigits_eq (n : Nat) : ∀ {r : Region} {i : Nat},
    i + (Numeral.digits n).length ≤ r.capacity →
    r.storeDigits (i + (Numeral.digits n).length) n =
      .ok (Builder.writeDigits r (i + (Numeral.digits n).length) (Numeral.digits n).length n, i) := by
  induction n using Nat.strongRecOn with
  | _ n ih =>
    intro r i h
    by_cases hn : n < 10
    · rw [Numeral.digits_small hn, List.length_singleton] at h ⊢
      rw [storeDigits, Check.sub_eq (by omega), Check.bind_ok, store?_eq (by omega), Check.inside,
        Check.bind_ok, dif_pos (by omega)]
      rfl
    · rw [Numeral.digits_large hn, List.length_append, List.length_singleton] at h ⊢
      have hrest := ih (n / 10) (by omega) (r := r.put (i + (Numeral.digits (n / 10)).length)
        (Numeral.digitUnit (n % 10))) (i := i) (by rw [capacity_put]; omega)
      rw [storeDigits, Check.sub_eq (by omega), Check.bind_ok, store?_eq (by omega), Check.inside,
        Check.bind_ok, dif_neg (by omega)]
      exact hrest

end Region

/-! ## §3. Builders. -/

/-- The number of units that are reserved for a text: its bytes are counted if all of them are
ASCII, and its units otherwise. -/
def CodeUnit.reserved (s : String) : Nat :=
  if s.toList.all (·.toNat < 0x80) then s.utf8ByteSize else (encode s).length

theorem CodeUnit.size_utf8Encode (cs : List Char) (h : ∀ c ∈ cs, c.toNat < 0x80) :
    cs.utf8Encode.size = (encodeChars cs).length := by
  induction cs with
  | nil => rfl
  | cons c cs ih =>
      have hc := h c List.mem_cons_self
      have hsize : [c].utf8Encode.size = 1 := by
        simp only [List.utf8Encode, List.flatMap_cons, List.flatMap_nil, List.append_nil,
          List.size_toByteArray, String.length_utf8EncodeChar]
        exact Char.utf8Size_eq_one_iff.mpr (UInt32.le_iff_toNat_le.mpr (Nat.le_of_lt_succ hc))
      have hlength : (encodeChar c).length = 1 := by
        rw [encodeChar_length, if_pos (by omega)]
      rw [List.utf8Encode_cons, ByteArray.size_append, hsize,
        ih fun c' hc' => h c' (List.mem_cons_of_mem c hc')]
      simp only [encodeChars, List.flatMap_cons, List.length_append, hlength]

/-- **What is reserved for a text is what is stored of it.** -/
theorem CodeUnit.reserved_eq (s : String) : reserved s = (encode s).length := by
  unfold reserved
  split
  · next h =>
      rw [← String.size_toByteArray, ← String.utf8Encode_toList]
      exact size_utf8Encode s.toList fun c hc => by simpa using List.all_eq_true.mp h c hc
  · rfl

namespace Builder

variable (b : Builder)

/-- The number of units that still fit. -/
def remainingChecked : Except Panic Nat := Check.sub b.capacity b.length

/-- The content. -/
def unitsChecked : Except Panic (List CodeUnit) := do
  Check.room b.length
  Check.inside (b.region.copyTo? 0 b.length [])

/-- The content as text. -/
def textChecked : Except Panic String := do
  let us ← b.unitsChecked
  return CodeUnit.decode us

/-- Runs `fill` on the memory if `count` units fit behind the content, and then
counts them as content. -/
def reserveChecked (count : Nat) (fill : Region → Except Panic Region) :
    Except Panic Appended := do
  let available ← b.remainingChecked
  if count ≤ available then
    let r ← fill b.region
    let length ← Check.add b.length count
    return (.ok true, (b.withRegion r).commit length)
  else return b.overflow count available

/-- Appends one unit. -/
def appendUnitChecked (u : CodeUnit) : Except Panic Appended :=
  b.reserveChecked 1 fun r => Check.inside (r.store? b.length u)

/-- Appends units. -/
def appendUnitsChecked (us : List CodeUnit) : Except Panic Appended :=
  b.reserveChecked us.length fun r => Check.inside (r.storeSlice? b.length us)

/-- Appends a character, which is encoded in an array of two units. -/
def appendCharChecked (c : Char) : Except Panic Appended := do
  Check.that ((CodeUnit.encodeChar c).length ≤ 2)
  b.appendUnitsChecked (CodeUnit.encodeChar c)

/-- Appends a text, each unit by a store of its own. -/
def appendTextChecked (s : String) : Except Panic Appended :=
  b.reserveChecked (CodeUnit.reserved s) fun r => r.storeEach b.length (CodeUnit.encode s)

/-- Appends a truth value. -/
def appendBoolChecked (v : Bool) : Except Panic Appended :=
  b.appendUnitsChecked (CodeUnit.encode (Literal.ofBool v))

/-- Appends a unit `count` times. -/
def appendRepeatedChecked (u : CodeUnit) (count : Nat) : Except Panic Appended :=
  b.reserveChecked count fun r => do
    let stop ← Check.add b.length count
    Check.inside (r.fill? b.length stop u)

/-- Appends the content of another builder. -/
def appendBuilderChecked (other : Builder) : Except Panic Appended :=
  b.reserveChecked other.length fun r =>
    Check.inside (r.copyFrom? b.length other.region 0 other.length)

/-- Appends the numeral of an integer of width `w`, and asserts that the digits have taken what
was reserved for them. -/
def appendIntChecked (w : IntWidth) (n : Int) : Except Panic Appended := do
  let sign := if n < 0 then 1 else 0
  let digits := w.digitCount n.natAbs
  let count ← Check.add digits sign
  b.reserveChecked count fun r => do
    let r ← if n < 0 then Check.inside (r.store? b.length 0x2D) else .ok r
    let start ← Check.add b.length sign
    let stop ← Check.add start digits
    let (r, first) ← r.storeDigits stop n.natAbs
    Check.that (first = start)
    return r

/-- Puts a zero behind the content, or over its last unit when there is no room. -/
def terminateChecked : Except Panic Appended :=
  if b.length < b.capacity then do
    let r ← Check.inside (b.region.store? b.length 0)
    return (.ok true, b.withRegion r)
  else
    match b.overflow 1 0 with
    | (.error e, b) => .ok (.error e, b)
    | (.ok _, b) =>
        if 0 < b.length then do
          let last ← Check.sub b.length 1
          let r ← Check.inside (b.region.store? last 0)
          return (.ok false, (b.withRegion r).commit last)
        else .ok (.ok false, b)

/-- Writes one piece of a longer text: whether it was written. -/
def sinkChecked (s : String) : Except Panic (Bool × Builder) := do
  match ← b.appendTextChecked s with
  | (.ok ok, b) => return (ok, b)
  | (.error e, b) => return (false, { b with pending := some e })

/-- Writes pieces until one of them fails. -/
def sinkAllChecked (b : Builder) (pieces : List String) (complete : Bool) :
    Except Panic (Bool × Builder) :=
  match pieces with
  | [] => .ok (complete, b)
  | s :: rest => do
      match ← b.sinkChecked s with
      | (true, b) => b.sinkAllChecked rest complete
      | (false, b) => return (false, b)

/-- Writes a text that comes in pieces, all of them or none. -/
def appendPiecesChecked (pieces : List String) (complete : Bool) : Except Panic Appended := do
  match ← b.sinkAllChecked pieces complete with
  | (true, b') => return (.ok true, b')
  | (false, b') =>
      let b' := b'.truncate b.length
      match b'.pending with
      | some e => return (.error e, { b' with pending := none })
      | none => return (.ok false, b')

/-- A bounded builder whose capacity lies in its memory, which is an array. -/
structure Housed (b : Builder) : Prop where
  bounded : b.Bounded
  capacity : b.capacity ≤ b.region.capacity
  room : b.region.capacity ≤ Check.maxUnits

variable {b}

theorem Whole.capacity_le (h : b.Whole) : b.capacity ≤ b.region.capacity := by
  cases hd : b.disposed with
  | false => exact Nat.le_of_eq (h.alive hd).symm
  | true => rw [h.disposed hd]; exact Nat.zero_le _

namespace Housed

theorem length (h : b.Housed) : b.length ≤ b.capacity := h.bounded.length

theorem sink (h : b.Housed) (s : String) : (b.sink s).2.Housed := by
  have hf := Framed.sink b s
  refine ⟨h.bounded.sink s, ?_, ?_⟩
  · rw [hf.capacity, hf.memory]
    exact h.capacity
  · rw [hf.memory]
    exact h.room

theorem remainingChecked_eq (h : b.Housed) : b.remainingChecked = .ok b.remaining :=
  Check.sub_eq h.length

theorem unitsChecked_eq (h : b.Housed) : b.unitsChecked = .ok b.units := by
  have hl := h.length
  have hc := h.capacity
  have hr := h.room
  rw [unitsChecked, Check.room_eq (by omega), Check.bind_ok, Region.copyTo?_eq (by omega)]
  rfl

theorem textChecked_eq (h : b.Housed) : b.textChecked = .ok b.text := by
  rw [textChecked, h.unitsChecked_eq]
  rfl

/-- **An append whose memory is filled within the reserved range meets no check that fails.** -/
theorem reserveChecked_eq (h : b.Housed) {count : Nat} {fill : Region → Except Panic Region}
    (change : Region → Region)
    (hfill : b.length + count ≤ b.region.capacity → fill b.region = .ok (change b.region)) :
    b.reserveChecked count fill = .ok (b.reserve count change) := by
  rw [reserveChecked, h.remainingChecked_eq, Check.bind_ok, remaining, reserve]
  have hl := h.length
  have hc := h.capacity
  have hr := Check.lt_word_of_le h.room
  split
  · rw [hfill (by omega), Check.bind_ok, Check.add_eq (by omega)]
    rfl
  · rfl

theorem appendUnitsChecked_eq (h : b.Housed) (us : List CodeUnit) :
    b.appendUnitsChecked us = .ok (b.appendUnits us) :=
  h.reserveChecked_eq _ fun hfit => by rw [Region.storeSlice?_eq hfit]; rfl

theorem appendUnitChecked_eq (h : b.Housed) (u : CodeUnit) :
    b.appendUnitChecked u = .ok (b.appendUnit u) :=
  h.reserveChecked_eq (·.write b.length [u])
    fun hfit => by rw [Region.store?_eq hfit]; rfl

theorem appendCharChecked_eq (h : b.Housed) (c : Char) :
    b.appendCharChecked c = .ok (b.appendChar c) := by
  have hlength : (CodeUnit.encodeChar c).length ≤ 2 := by
    rw [CodeUnit.encodeChar_length]
    split <;> decide
  rw [appendCharChecked, Check.that_eq hlength]
  exact h.appendUnitsChecked_eq _

theorem appendTextChecked_eq (h : b.Housed) (s : String) :
    b.appendTextChecked s = .ok (b.appendText s) := by
  rw [appendTextChecked, CodeUnit.reserved_eq]
  exact h.reserveChecked_eq (·.write b.length (CodeUnit.encode s))
    fun hfit => Region.storeEach_eq _ hfit

theorem appendRepeatedChecked_eq (h : b.Housed) (u : CodeUnit) (count : Nat) :
    b.appendRepeatedChecked u count = .ok (b.appendRepeated u count) := by
  refine h.reserveChecked_eq _ fun hfit => ?_
  have hr := Check.lt_word_of_le h.room
  rw [Check.add_eq (by omega), Check.bind_ok, Region.fill?_eq hfit]
  rfl

theorem appendBuilderChecked_eq (h : b.Housed) {other : Builder} (ho : other.Housed) :
    b.appendBuilderChecked other = .ok (b.appendBuilder other) := by
  refine h.reserveChecked_eq _ fun hfit => ?_
  have hl := ho.length
  have hc := ho.capacity
  rw [Region.copyFrom?_eq hfit (by omega)]
  rfl

/-- **An integer of its width takes exactly the digits that were reserved for it.** -/
theorem appendIntChecked_eq (h : b.Housed) {w : IntWidth} {n : Int} (hn : w.Holds n) :
    b.appendIntChecked w n = .ok (b.appendInt w n) := by
  have hdigits := IntWidth.digitCount_eq_length hn
  have hfew := w.digitCount_le n.natAbs
  have hr := Check.lt_word_of_le h.room
  rw [hdigits] at hfew
  simp only [appendIntChecked, appendInt, hdigits]
  by_cases hneg : n < 0
  · simp only [if_pos hneg]
    rw [Check.add_eq (by omega), Check.bind_ok, Nat.add_comm]
    refine h.reserveChecked_eq _ fun hfit => ?_
    have hstore := Region.storeDigits_eq n.natAbs (r := b.region.put b.length 0x2D)
      (i := b.length + 1) (by rw [Region.capacity_put]; omega)
    rw [Region.store?_eq (by omega), Check.inside, Check.bind_ok, Check.add_eq (by omega),
      Check.bind_ok, Check.add_eq (by omega), Check.bind_ok, hstore, Check.bind_ok,
      Check.that_eq rfl]
    rfl
  · simp only [if_neg hneg, Nat.add_zero, Nat.zero_add]
    rw [Check.add_eq (by omega), Check.bind_ok]
    refine h.reserveChecked_eq _ fun hfit => ?_
    have hstore := Region.storeDigits_eq n.natAbs hfit
    rw [Check.bind_ok, Check.add_eq (by omega), Check.bind_ok, Nat.add_zero,
      Check.add_eq (by omega), Check.bind_ok, hstore, Check.bind_ok, Check.that_eq rfl]
    rfl

theorem terminateChecked_eq (h : b.Housed) : b.terminateChecked = .ok b.terminate := by
  have hl := h.length
  have hc := h.capacity
  unfold terminateChecked terminate
  split
  · rw [Region.store?_eq (by omega)]
    rfl
  · unfold overflow
    cases b.policy with
    | error => rfl
    | report =>
        dsimp only
        split
        · next hpos =>
            have hlast : b.length - 1 < b.region.capacity := by
              have hpos' : 0 < b.length := hpos
              omega
            rw [Check.sub_eq hpos, Check.bind_ok, Region.store?_eq hlast]
            rfl
        · rfl

theorem sinkChecked_eq (h : b.Housed) (s : String) : b.sinkChecked s = .ok (b.sink s) := by
  rw [sinkChecked, h.appendTextChecked_eq, Check.bind_ok, Builder.sink]
  rcases b.appendText s with ⟨e | ok, b'⟩ <;> rfl

theorem sinkAllChecked_eq (complete : Bool) (pieces : List String) : ∀ {b : Builder}, b.Housed →
    b.sinkAllChecked pieces complete = .ok (b.sinkAll pieces complete) := by
  induction pieces with
  | nil => intro b h; rfl
  | cons s rest ih =>
      intro b h
      have hs := h.sink s
      rw [sinkAllChecked, h.sinkChecked_eq, Check.bind_ok, sinkAll]
      revert hs
      rcases b.sink s with ⟨_ | _, b'⟩
      · exact fun _ => rfl
      · exact fun hs => ih hs

theorem appendPiecesChecked_eq (h : b.Housed) (pieces : List String) (complete : Bool) :
    b.appendPiecesChecked pieces complete = .ok (b.appendPieces pieces complete) := by
  rw [appendPiecesChecked, sinkAllChecked_eq complete pieces h, Check.bind_ok, appendPieces]
  rcases b.sinkAll pieces complete with ⟨_ | _, b'⟩
  · dsimp only
    cases (b'.truncate b.length).pending <;> rfl
  · rfl

end Housed

end Builder

/-! ## §4. Snapshots. -/

/-- The units of a segment. -/
def Segment.unitsChecked (s : Segment) : Except Panic (List CodeUnit) :=
  if s.start + s.length ≤ s.array.length then .ok s.units else .error .range

/-- A segment cannot reach beyond its array. -/
theorem Segment.unitsChecked_eq (s : Segment) : s.unitsChecked = .ok s.units := if_pos s.inside

namespace Snapshot

variable (see : BuilderId → Published)

/-- The units of a builder that has the version `v` and the length `n`; `none` if it has not.
Nothing happens to the builder while they are copied, so that the second look at version and
length finds what the first one found. -/
def boundUnitsChecked (id : BuilderId) (v : UInt64) (n : Nat) :
    Except Panic (Option (List CodeUnit)) :=
  if (see id).version = v && (see id).length = n then do
    Check.room n
    let us ← Check.inside ((see id).region.copyTo? 0 n [])
    return some us
  else .ok none

/-- The segment of the content, made at the first read. -/
def readSegmentChecked (s : Snapshot) : Except Panic (Option (Segment × Snapshot)) :=
  if s.isCurrent see then
    match s.array, s.origin with
    | some seg, _ => .ok (some (seg, s))
    | none, .units seg => .ok (some (seg, { s with array := some seg }))
    | none, .text t =>
        let seg := Segment.whole (CodeUnit.encode t)
        .ok (some (seg, { s with array := some seg }))
    | none, .bound id v n => do
        match ← boundUnitsChecked see id v n with
        | none => return none
        | some us => return some (.whole us, { s with array := some (.whole us) })
  else .ok none

/-- The content as an array that holds nothing else. -/
def readArrayChecked (s : Snapshot) : Except Panic (Option (List CodeUnit × Snapshot)) := do
  match ← s.readSegmentChecked see with
  | none => return none
  | some (seg, s) =>
      if seg.coversArray then return some (seg.array, s)
      else
        let us ← seg.unitsChecked
        return some (us, { s with array := some (.whole us) })

/-- The content as text. -/
def readTextChecked (s : Snapshot) : Except Panic (Option (String × Snapshot)) :=
  if s.isCurrent see then
    match s.text with
    | some t => .ok (some (t, s))
    | none => do
        let t ← match s.array, s.origin with
          | some seg, _ => (some <| CodeUnit.decode ·) <$> seg.unitsChecked
          | none, .units seg => (some <| CodeUnit.decode ·) <$> seg.unitsChecked
          | none, .text t => .ok (some t)
          | none, .bound id v n => (·.map CodeUnit.decode) <$> boundUnitsChecked see id v n
        return t.map fun t => (t, { s with text := some t })
  else .ok none

/-- Cuts the tie to the builder, keeping what was read before. -/
def freezeChecked (s : Snapshot) : Except Panic (Option Snapshot) :=
  if s.isFrozen then .ok (some s)
  else if s.isCurrent see then
    match s.array, s.text with
    | some seg, _ => .ok (some { s with origin := .units seg })
    | none, some t => .ok (some { s with origin := .text t })
    | none, none => do
        match ← s.readSegmentChecked see with
        | none => return none
        | some (seg, s) => return some { s with origin := .units seg }
  else .ok none

/-- What a bound snapshot would read lies in the region, which is an array. -/
def Covered (s : Snapshot) : Prop :=
  ∀ id v n, s.origin = .bound id v n → (see id).version = v → (see id).length = n →
    n ≤ (see id).region.capacity ∧ (see id).region.capacity ≤ Check.maxUnits

variable {see} {s : Snapshot}

theorem isCurrent_bound {id : BuilderId} {v : UInt64} {n : Nat} (ho : s.origin = .bound id v n)
    (hc : s.isCurrent see = true) : (see id).version = v ∧ (see id).length = n := by
  simpa [isCurrent, ho] using hc

namespace Covered

theorem boundUnitsChecked_eq (h : s.Covered see) {id : BuilderId} {v : UInt64} {n : Nat}
    (ho : s.origin = .bound id v n) (hc : s.isCurrent see = true) :
    boundUnitsChecked see id v n = .ok (some (s.content see)) := by
  obtain ⟨hv, hlength⟩ := isCurrent_bound ho hc
  obtain ⟨hn, hr⟩ := h id v n ho hv hlength
  rw [boundUnitsChecked, if_pos (by simp [hv, hlength]), Check.room_eq (by omega), Check.bind_ok,
    Region.copyTo?_eq hn, content, ho]
  rfl

/-- **Reading a covered snapshot meets no check that fails.** -/
theorem readSegmentChecked_eq (h : s.Covered see) :
    s.readSegmentChecked see = .ok (s.readSegment? see) := by
  unfold readSegmentChecked readSegment?
  split
  · next hc =>
      cases ha : s.array with
      | some seg => rfl
      | none =>
          cases ho : s.origin with
          | units seg => rfl
          | text t => simp only [content, ho]
          | bound id v n =>
              simp only [h.boundUnitsChecked_eq ho hc]
              rfl
  · rfl

theorem readArrayChecked_eq (h : s.Covered see) :
    s.readArrayChecked see = .ok (s.readArray? see) := by
  rw [readArrayChecked, h.readSegmentChecked_eq, Check.bind_ok, readArray?]
  rcases s.readSegment? see with _ | ⟨seg, s'⟩
  · rfl
  · dsimp only
    split
    · rfl
    · rw [seg.unitsChecked_eq]
      rfl

theorem readTextChecked_eq (h : s.Covered see) :
    s.readTextChecked see = .ok (s.readText? see) := by
  unfold readTextChecked readText?
  split
  · next hc =>
      cases s.text with
      | some t => rfl
      | none =>
          cases s.array with
          | some seg => simp only [seg.unitsChecked_eq]; rfl
          | none =>
              cases ho : s.origin with
              | units seg => simp only [seg.unitsChecked_eq]; rfl
              | text t => rfl
              | bound id v n => simp only [h.boundUnitsChecked_eq ho hc]; rfl
  · rfl

theorem freezeChecked_eq (h : s.Covered see) : s.freezeChecked see = .ok (s.freeze? see) := by
  unfold freezeChecked freeze?
  split
  · rfl
  · next hfrozen =>
      split
      · next hc =>
          cases ha : s.array with
          | some seg => rfl
          | none =>
              cases ht : s.text with
              | some t => rfl
              | none =>
                  simp only [h.readSegmentChecked_eq, readSegment?, if_pos hc, ha, ht]
                  cases ho : s.origin with
                  | bound id v n => rfl
                  | units seg => simp [isFrozen, boundTo?, ho] at hfrozen
                  | text t => simp [isFrozen, boundTo?, ho] at hfrozen
      · rfl

end Covered

end Snapshot
end ValueText
