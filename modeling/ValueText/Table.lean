/-
  ValueText.Table — finite maps that remember the order of insertion.

  Several answers of this library list registrations in the order in which they
  were made, so the maps behind them are lists of pairs.  A key keeps its place
  when its value is replaced.
-/

namespace ValueText

/-- A finite map, as its entries in the order in which their keys came. -/
structure Table (κ α : Type) where
  /-- The entries; `set` keeps the keys distinct. -/
  entries : List (κ × α) := []
  deriving Repr

namespace Table

variable {κ α : Type} [DecidableEq κ]

/-- The map without entries. -/
def empty : Table κ α := ⟨[]⟩

instance : Inhabited (Table κ α) := ⟨empty⟩

/-- The number of keys. -/
def size (t : Table κ α) : Nat := t.entries.length

/-- The keys, in order. -/
def keys (t : Table κ α) : List κ := t.entries.map Prod.fst

/-- The values, in the order of their keys. -/
def values (t : Table κ α) : List α := t.entries.map Prod.snd

/-- The value at the first entry of `k`. -/
def find? (k : κ) : List (κ × α) → Option α
  | [] => none
  | (k', v) :: rest => if k' = k then some v else find? k rest

/-- The value at `k`. -/
def get? (t : Table κ α) (k : κ) : Option α := find? k t.entries

/-- Whether `k` has a value. -/
def contains (t : Table κ α) (k : κ) : Bool := (t.get? k).isSome

/-- Replaces the value at `k`, or adds `k` at the end. -/
def set (t : Table κ α) (k : κ) (v : α) : Table κ α := ⟨go t.entries⟩
where
  go : List (κ × α) → List (κ × α)
    | [] => [(k, v)]
    | (k', v') :: rest => if k' = k then (k, v) :: rest else (k', v') :: go rest

/-- Adds `k` unless it has a value. -/
def insertNew (t : Table κ α) (k : κ) (v : α) : Table κ α :=
  if t.contains k then t else t.set k v

/-- Removes `k`. -/
def erase (t : Table κ α) (k : κ) : Table κ α := ⟨t.entries.filter fun e => e.1 ≠ k⟩

/-! ## §1. What the operations do to `get?`. -/

@[simp] theorem get?_empty (k : κ) : (empty : Table κ α).get? k = none := rfl

theorem find?_go (es : List (κ × α)) (k : κ) (v : α) (k' : κ) :
    find? k' (set.go k v es) = if k = k' then some v else find? k' es := by
  induction es with
  | nil => rfl
  | cons e es ih =>
      obtain ⟨k₀, v₀⟩ := e
      by_cases h₀ : k₀ = k
      · by_cases h : k = k' <;> simp [set.go, find?, h₀, h]
      · by_cases h : k = k'
        · subst h
          simp [set.go, find?, h₀, ih]
        · simp [set.go, find?, h₀, h, ih]

@[simp] theorem get?_set (t : Table κ α) (k k' : κ) (v : α) :
    (t.set k v).get? k' = if k = k' then some v else t.get? k' :=
  find?_go t.entries k v k'

/-- What is there already stays. -/
theorem get?_insertNew (t : Table κ α) (k k' : κ) (v : α) :
    (t.insertNew k v).get? k' = if k = k' ∧ t.get? k = none then some v else t.get? k' := by
  unfold insertNew contains
  split
  · next hsome => rw [if_neg fun h => Option.isSome_iff_ne_none.mp hsome h.2]
  · next hnone =>
      have hnone : t.get? k = none := Option.not_isSome_iff_eq_none.mp hnone
      rw [get?_set]
      by_cases h : k = k'
      · rw [if_pos h, if_pos ⟨h, hnone⟩]
      · rw [if_neg h, if_neg fun hk => h hk.1]

theorem find?_filter_ne (es : List (κ × α)) (k k' : κ) :
    find? k' (es.filter fun e => e.1 ≠ k) = if k = k' then none else find? k' es := by
  induction es with
  | nil => simp [find?]
  | cons e es ih =>
      obtain ⟨k₀, v₀⟩ := e
      by_cases h₀ : k₀ = k
      · subst h₀
        by_cases h : k₀ = k'
        · simpa [h] using ih
        · simpa [find?, h] using ih
      · by_cases h : k = k'
        · subst h
          simpa [find?, h₀] using ih
        · by_cases h' : k₀ = k' <;> simp_all [find?]

@[simp] theorem get?_erase (t : Table κ α) (k k' : κ) :
    (t.erase k).get? k' = if k = k' then none else t.get? k' := find?_filter_ne t.entries k k'

theorem get?_of_erase {t : Table κ α} {k k' : κ} {v : α} (h : (t.erase k).get? k' = some v) :
    t.get? k' = some v := by
  rw [get?_erase] at h
  split at h
  · cases h
  · exact h

/-- A key that is added and removed again leaves nothing behind. -/
theorem erase_set {t : Table κ α} {k : κ} (h : t.get? k = none) (v : α) :
    (t.set k v).erase k = t := by
  have hgo (es : List (κ × α)) (h : find? k es = none) :
      (set.go k v es).filter (fun e => e.1 ≠ k) = es := by
    induction es with
    | nil => simp [set.go]
    | cons e es ih =>
        unfold find? at h
        split at h
        · cases h
        · next hne => simpa [set.go, hne] using ih h
  rw [erase, set, hgo t.entries h]

/-! ## §2. What they do to the values. -/

theorem mem_values_of_get? {t : Table κ α} {k : κ} {v : α} (h : t.get? k = some v) :
    v ∈ t.values := by
  have hfind (es : List (κ × α)) (h : find? k es = some v) : v ∈ es.map Prod.snd := by
    induction es with
    | nil => cases h
    | cons e es ih =>
        unfold find? at h
        split at h
        · cases h
          exact List.mem_cons_self
        · exact List.mem_cons_of_mem _ (ih h)
  exact hfind t.entries h

theorem mem_values_set {t : Table κ α} {k : κ} {v x : α} (h : x ∈ (t.set k v).values) :
    x = v ∨ x ∈ t.values := by
  have hgo (es : List (κ × α)) (h : x ∈ (set.go k v es).map Prod.snd) :
      x = v ∨ x ∈ es.map Prod.snd := by
    induction es with
    | nil => simpa [set.go] using h
    | cons e es ih =>
        obtain ⟨k₀, v₀⟩ := e
        unfold set.go at h
        split at h
        · simp only [List.map_cons, List.mem_cons] at h ⊢
          exact h.imp id .inr
        · simp only [List.map_cons, List.mem_cons] at h ⊢
          rcases h with rfl | h
          · exact .inr (.inl rfl)
          · exact (ih h).imp id .inr
  exact hgo t.entries h

theorem mem_values_erase {t : Table κ α} {k : κ} {x : α} (h : x ∈ (t.erase k).values) :
    x ∈ t.values := by
  obtain ⟨e, he, rfl⟩ := List.mem_map.mp h
  exact List.mem_map_of_mem (List.mem_filter.mp he).1

end Table
end ValueText
