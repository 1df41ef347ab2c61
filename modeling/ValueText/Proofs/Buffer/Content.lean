/-
  ValueText.Proofs.Buffer.Content — what the operations of a builder keep.

  Appends write behind the content, so the units that are there already stay
  where they are.  Only three operations reach into the content: storing a unit at
  an index, truncating, and the null termination of a full builder.  They damage
  the first `n` units when they overwrite or remove one of them.

  Main results:

    • `Keeps`        the first `n` units and the version are as they were; every
                     append keeps the whole content (`Grown.keeps`), and so does
                     every displayed value, also one that fails (`keeps_appendDisplay`);
    • `Consistent`   a builder publishes its own length and version, whatever was
                     done to it;
    • `Handled`      what becomes of a builder that is rented, returned or dropped:
                     its version moves on unless nothing happened to the content.
-/
import ValueText.Buffer.Display
import ValueText.Buffer.Workspace

namespace ValueText

/-! ## §1. Memory in front of a place. -/

namespace Region

theorem slice_zero (r : Region) (n : Nat) : r.slice 0 n = r.cells.toList.take n := by
  simp [slice]

theorem slice_put {r : Region} {i n : Nat} (u : CodeUnit) (h : n ≤ i) :
    (r.put i u).slice 0 n = r.slice 0 n := by
  rw [slice_zero, slice_zero]
  simp only [put, Array.toList_setIfInBounds]
  exact List.take_set_of_le h

theorem slice_write (us : List CodeUnit) :
    ∀ {r : Region} {i n : Nat}, n ≤ i → (r.write i us).slice 0 n = r.slice 0 n := by
  induction us with
  | nil => intro r i n _; rfl
  | cons u us ih =>
      intro r i n h
      show ((r.put i u).write (i + 1) us).slice 0 n = r.slice 0 n
      rw [ih (Nat.le_succ_of_le h), slice_put u h]

/-- Two memories that agree up to a place agree up to every earlier one. -/
theorem slice_of_le {r r' : Region} {m n : Nat} (h : r'.slice 0 n = r.slice 0 n) (hm : m ≤ n) :
    r'.slice 0 m = r.slice 0 m := by
  simp only [slice_zero] at h ⊢
  have hcut := congrArg (List.take m) h
  rwa [List.take_take, List.take_take, Nat.min_eq_left hm] at hcut

/-- A change of the memory that leaves the first `n` units alone. -/
def Spares (n : Nat) (fill : Region → Region) : Prop := ∀ r, (fill r).slice 0 n = r.slice 0 n

end Region

namespace Builder

/-! ## §2. Keeping the front of the content. -/

/-- `b'` has the version of `b` and the same first `n` units of content. -/
structure Keeps (n : Nat) (b b' : Builder) : Prop where
  version : b'.version = b.version
  units : b'.region.slice 0 n = b.region.slice 0 n
  length : n ≤ b'.length

theorem Keeps.refl {n : Nat} {b : Builder} (h : n ≤ b.length) : Keeps n b b := ⟨rfl, rfl, h⟩

theorem Keeps.trans {n : Nat} {b₁ b₂ b₃ : Builder} (h₁ : Keeps n b₁ b₂) (h₂ : Keeps n b₂ b₃) :
    Keeps n b₁ b₃ :=
  ⟨h₂.version.trans h₁.version, h₂.units.trans h₁.units, h₂.length⟩

theorem Keeps.of_le {m n : Nat} {b b' : Builder} (h : Keeps n b b') (hm : m ≤ n) : Keeps m b b' :=
  ⟨h.version, Region.slice_of_le h.units hm, Nat.le_trans hm h.length⟩

/-- Content of the kept length is the content that was there. -/
theorem Keeps.units_eq {b b' : Builder} (h : Keeps b.length b b') (hl : b'.length = b.length) :
    b'.units = b.units := by
  show b'.region.slice 0 b'.length = b.region.slice 0 b.length
  rw [hl, h.units]

/-- What an append makes of a builder: room is reserved, and filled without
touching the content. -/
def Grown (b b' : Builder) : Prop :=
  ∃ count fill, Region.Spares b.length fill ∧ b' = (b.reserve count fill).2

theorem keeps_overflow {n : Nat} {b : Builder} (h : n ≤ b.length) (requested available : Nat) :
    Keeps n b (b.overflow requested available).2 := by
  unfold overflow
  cases b.policy <;> exact ⟨rfl, rfl, h⟩

theorem keeps_reserve {n : Nat} {b : Builder} (h : n ≤ b.length) (count : Nat)
    {fill : Region → Region} (hfill : Region.Spares b.length fill) :
    Keeps n b (b.reserve count fill).2 := by
  unfold reserve
  split
  · refine ⟨rfl, ?_, ?_⟩
    · exact Region.slice_of_le (hfill b.region) h
    · show n ≤ b.length + count
      omega
  · exact keeps_overflow h _ _

/-- **An append keeps the content.** -/
theorem Grown.keeps {b b' : Builder} (h : Grown b b') : Keeps b.length b b' := by
  obtain ⟨count, fill, hfill, rfl⟩ := h
  exact keeps_reserve (Nat.le_refl _) count hfill

theorem grown_appendUnits (b : Builder) (us : List CodeUnit) : Grown b (b.appendUnits us).2 :=
  ⟨us.length, _, fun _ => Region.slice_write us (Nat.le_refl _), rfl⟩

theorem grown_appendRepeated (b : Builder) (u : CodeUnit) (count : Nat) :
    Grown b (b.appendRepeated u count).2 :=
  ⟨count, _, fun _ => Region.slice_write _ (Nat.le_refl _), rfl⟩

theorem grown_appendBuilder (b other : Builder) : Grown b (b.appendBuilder other).2 :=
  ⟨other.length, _, fun _ => Region.slice_write _ (Nat.le_refl _), rfl⟩

/-- Digits are stored from the last place down; the lowest one is `stop - count`. -/
theorem slice_writeDigits (count : Nat) :
    ∀ {r : Region} {stop n k : Nat}, n + count ≤ stop →
      (writeDigits r stop count k).slice 0 n = r.slice 0 n := by
  induction count with
  | zero => intro r stop n k _; rfl
  | succ count ih =>
      intro r stop n k h
      show (writeDigits (r.put (stop - 1) _) (stop - 1) count (k / 10)).slice 0 n = _
      rw [ih (by omega), Region.slice_put _ (by omega)]

theorem grown_appendInt (b : Builder) (w : IntWidth) (n : Int) : Grown b (b.appendInt w n).2 := by
  refine ⟨_, _, ?_, rfl⟩
  intro r
  -- The digits end where the reserved room ends, so the first one stands behind the content.
  rw [slice_writeDigits _ (by omega)]
  split
  · exact Region.slice_put _ (Nat.le_refl _)
  · rfl

/-! ## §3. What a builder publishes. -/

/-- A builder publishes its own length and version. -/
structure Consistent (b : Builder) : Prop where
  length : b.published.length = b.length
  version : b.published.version = b.version

theorem consistent_ofRegion (r : Region) (policy : OverflowPolicy) :
    Consistent (ofRegion r policy) := ⟨rfl, rfl⟩

namespace Consistent

variable {b : Builder}

theorem overflow (h : b.Consistent) (requested available : Nat) :
    (b.overflow requested available).2.Consistent := by
  unfold Builder.overflow
  cases b.policy <;> exact ⟨h.length, h.version⟩

theorem commit (h : b.Consistent) (n : Nat) : (b.commit n).Consistent := ⟨rfl, h.version⟩

theorem withRegion (h : b.Consistent) (r : Region) : (b.withRegion r).Consistent :=
  ⟨h.length, h.version⟩

theorem reserve (h : b.Consistent) (count : Nat) (fill : Region → Region) :
    (b.reserve count fill).2.Consistent := by
  unfold Builder.reserve
  split
  · exact (h.withRegion _).commit _
  · exact h.overflow _ _

theorem grown {b' : Builder} (h : b.Consistent) (hg : Grown b b') : b'.Consistent := by
  obtain ⟨count, fill, -, rfl⟩ := hg
  exact h.reserve count fill

theorem clear (b : Builder) : b.clear.Consistent := ⟨rfl, rfl⟩

theorem truncate (h : b.Consistent) (n : Nat) : (b.truncate n).Consistent := by
  unfold Builder.truncate
  split
  · exact h.commit n
  · exact h

theorem set? (h : b.Consistent) {i : Nat} {u : CodeUnit} {b' : Builder}
    (hset : b.set? i u = some b') : b'.Consistent := by
  simp only [Builder.set?, Option.map_eq_some_iff] at hset
  obtain ⟨r, -, rfl⟩ := hset
  -- Only the memory is another one; what is published is not read from it.
  exact h.withRegion r

theorem dispose (h : b.Consistent) (shared : Bool) : (b.dispose shared).Consistent := by
  unfold Builder.dispose
  split
  · exact h
  · cases shared <;> exact ⟨rfl, rfl⟩

theorem terminate (h : b.Consistent) : b.terminate.2.Consistent := by
  unfold Builder.terminate
  split
  · exact h.withRegion _
  · have ho := h.overflow 1 0
    split
    · next e b' he => rw [he] at ho; exact ho
    · next v b' he =>
        rw [he] at ho
        split
        · exact (ho.withRegion _).commit _
        · exact ho

end Consistent

/-! ## §4. Writing in pieces. -/

theorem grown_appendText (b : Builder) (s : String) : Grown b (b.appendText s).2 :=
  b.grown_appendUnits _

theorem keeps_sink {n : Nat} {b : Builder} (h : n ≤ b.length) (s : String) :
    Keeps n b (b.sink s).2 := by
  have hk := (b.grown_appendText s).keeps.of_le h
  -- A piece that does not fit is noted beside the content.
  unfold sink
  split
  · next v b' he => rw [he] at hk; exact hk
  · next e b' he => rw [he] at hk; exact ⟨hk.version, hk.units, hk.length⟩

theorem Consistent.sink {b : Builder} (h : b.Consistent) (s : String) :
    (b.sink s).2.Consistent := by
  have hc := h.grown (b.grown_appendText s)
  unfold Builder.sink
  split
  · next v b' he => rw [he] at hc; exact hc
  · next e b' he => rw [he] at hc; exact ⟨hc.length, hc.version⟩

theorem keeps_sinkTo (v : Display) :
    ∀ {n : Nat} {b : Builder}, n ≤ b.length → Keeps n b (v.sinkTo b).2 := by
  -- Induction on what is displayed: a piece keeps the content, written or not.
  induction v with
  | done ok => exact fun h => .refl h
  | write s next ih =>
      intro n b h
      have hs := keeps_sink h s
      exact hs.trans (ih _ hs.length)

theorem Consistent.sinkTo (v : Display) :
    ∀ {b : Builder}, b.Consistent → (v.sinkTo b).2.Consistent := by
  induction v with
  | done ok => exact fun h => h
  | write s next ih => exact fun h => ih _ (h.sink s)

theorem keeps_truncate {n m : Nat} {b : Builder} (h : n ≤ b.length) (hm : n ≤ m) :
    Keeps n b (b.truncate m) := by
  unfold truncate
  split
  · exact ⟨rfl, rfl, hm⟩
  · exact Keeps.refl h

/-- **A displayed value keeps the content**, also when it is taken back. -/
theorem keeps_appendDisplay (b : Builder) (v : Display) :
    Keeps b.length b (b.appendDisplay v).2 := by
  have hs := keeps_sinkTo v (Nat.le_refl b.length)
  -- The pieces that were written are taken back, down to the old length and no further.
  have ht := hs.trans (keeps_truncate hs.length (Nat.le_refl b.length))
  exact appendDisplay_induct hs ⟨ht.version, ht.units, ht.length⟩

theorem keeps_appendPieces (b : Builder) (pieces : List String) (complete : Bool) :
    Keeps b.length b (b.appendPieces pieces complete).2 := by
  rw [appendPieces_eq]
  exact b.keeps_appendDisplay _

theorem Consistent.appendDisplay {b : Builder} (h : b.Consistent) (v : Display) :
    (b.appendDisplay v).2.Consistent := by
  have hs := Consistent.sinkTo v h
  have ht := hs.truncate b.length
  exact appendDisplay_induct hs ⟨ht.length, ht.version⟩

theorem Consistent.appendPieces {b : Builder} (h : b.Consistent) (pieces : List String)
    (complete : Bool) : (b.appendPieces pieces complete).2.Consistent := by
  rw [appendPieces_eq]
  exact h.appendDisplay _

/-! ## §5. Builders that are rented, returned and dropped. -/

/-- A builder that was disposed, or left alone. -/
def Discarded (b b' : Builder) : Prop := b' = b ∨ ∃ shared, b' = b.dispose shared

theorem dispose_dispose (b : Builder) (shared shared' : Bool) :
    (b.dispose shared).dispose shared' = b.dispose shared := by
  have hd : (b.dispose shared).disposed = true := by
    unfold dispose
    split
    · assumption
    · cases shared <;> rfl
  rw [dispose, if_pos hd]

theorem Discarded.trans {b₁ b₂ b₃ : Builder} (h₁ : Discarded b₁ b₂) (h₂ : Discarded b₂ b₃) :
    Discarded b₁ b₃ := by
  rcases h₁ with rfl | ⟨shared, rfl⟩
  · exact h₂
  · rcases h₂ with rfl | ⟨shared', rfl⟩
    · exact .inr ⟨shared, rfl⟩
    · exact .inr ⟨shared, dispose_dispose ..⟩

theorem Discarded.version {b b' : Builder} (h : Discarded b b') :
    b' = b ∨ b'.version = b.version + 1 := by
  rcases h with rfl | ⟨shared, rfl⟩
  · exact .inl rfl
  · unfold dispose
    split
    · exact .inl rfl
    · cases shared <;> exact .inr rfl

theorem Discarded.consistent {b b' : Builder} (h : Discarded b b') (hb : b.Consistent) :
    b'.Consistent := by
  rcases h with rfl | ⟨shared, rfl⟩
  · exact hb
  · exact hb.dispose shared

/-- What becomes of a builder that is returned: it may be cleared, and then disposed. -/
def Returned (b b' : Builder) : Prop := ∃ b₁, (b₁ = b ∨ b₁ = b.clear) ∧ Discarded b₁ b'

/-- What renting, returning and dropping make of a builder: a text may be appended
before the builder is returned. -/
def Handled (b b' : Builder) : Prop :=
  ∃ b₁, (b₁ = b ∨ ∃ s, b₁ = (b.appendText s).2) ∧ Returned b₁ b'

theorem Discarded.returned {b b' : Builder} (h : Discarded b b') : Returned b b' :=
  ⟨b, .inl rfl, h⟩

theorem Returned.refl (b : Builder) : Returned b b := Discarded.returned (.inl rfl)

theorem Returned.handled {b b' : Builder} (h : Returned b b') : Handled b b' := ⟨b, .inl rfl, h⟩

theorem Handled.refl (b : Builder) : Handled b b := (Returned.refl b).handled

theorem Returned.consistent {b b' : Builder} (h : Returned b b') (hb : b.Consistent) :
    b'.Consistent := by
  obtain ⟨b₁, h₁, hd⟩ := h
  rcases h₁ with rfl | rfl
  · exact hd.consistent hb
  · exact hd.consistent (Consistent.clear b)

theorem Handled.consistent {b b' : Builder} (h : Handled b b') (hb : b.Consistent) :
    b'.Consistent := by
  obtain ⟨b₁, h₁, hr⟩ := h
  rcases h₁ with rfl | ⟨s, rfl⟩
  · exact hr.consistent hb
  · exact hr.consistent (hb.grown (b.grown_appendText s))

/-- A builder that is returned and has its version still was left alone. -/
theorem Returned.eq_of_version {b b' : Builder} (h : Returned b b')
    (hv : b'.version = b.version) : b' = b := by
  obtain ⟨b₁, h₁, hd⟩ := h
  have hc : b.clear.version = b.version + 1 := rfl
  -- One or two steps of the version lead to another version.
  rcases h₁ with rfl | rfl <;> rcases hd.version with rfl | hd
  · rfl
  · exact absurd (hd.symm.trans hv) (by grind)
  · exact absurd (hc.symm.trans hv) (by grind)
  · exact absurd (hd.symm.trans hv) (by rw [hc]; grind)

/-- **A handled builder of the same version has kept its content.** -/
theorem Handled.keeps {b b' : Builder} (h : Handled b b') (hv : b'.version = b.version) :
    Keeps b.length b b' := by
  obtain ⟨b₁, h₁, hr⟩ := h
  -- Appending leaves the version alone, so the builder was returned without a change.
  have hk : Keeps b.length b b₁ := by
    rcases h₁ with rfl | ⟨s, rfl⟩
    · exact Keeps.refl (Nat.le_refl _)
    · exact (b.grown_appendText s).keeps
  rw [hr.eq_of_version (hv.trans hk.version.symm)]
  exact hk

end Builder
end ValueText
