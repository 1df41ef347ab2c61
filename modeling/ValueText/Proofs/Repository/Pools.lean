/-
  ValueText.Proofs.Repository.Pools — what becomes of the builders of a repository.

  A repository writes a value into a builder of its pool, reads the text off, and gives
  the builder back.  The pool is touched by renting and giving back alone.  Its builders
  are always empty and made as its options say, whoever used them, so the builder that is
  given back suits, and there is room for it unless the pool keeps no builders at all.

  One thing a builder brings along: an overflow that is pending in it.

  Main results:

    • `StaticFormatter.pool_write`  writing leaves the pool alone;
    • `Pool.Sound`                  what the pool has, with one lemma for each use;
    • `format_giveBack`             the rented builder is back in the pool, cleared;
    • `appends_formatting`          what is written to it;
    • `Pool.pending?`               what is pending in the builder that is rented next.
-/
import ValueText.Proofs.Formatter.Parallel
import ValueText.Proofs.Repository.History

namespace ValueText

open Writing (Appends)

/-! ## §1. Writing leaves the pool alone. -/

namespace Repository

/-- The pool of a repository, unless the repository is gone. -/
def pool? (home : Option Repository) : Option (Pool Builder) := home.map (·.pool)

theorem pool_accept (r : Repository) (n : Notice Handle Slot) : (r.accept n).pool = r.pool := by
  unfold accept
  split <;> rfl

theorem pool_follow (r : Repository) (f : Factory Handle Slot) (ns : List (Notice Handle Slot)) :
    (r.follow f ns).pool = r.pool :=
  foldl_accept pool_accept _ _

theorem pool_getRuntime (r : Repository) (d : Descriptor) : (r.getRuntime d).2.pool = r.pool := by
  unfold getRuntime
  split
  · rfl
  · exact pool_follow ..

theorem pool_get (r : Repository) (c : Catalog) (t : HostType) : (r.get c t).2.1.pool = r.pool := by
  unfold get
  split
  · rfl
  · exact pool_follow ..

/-- Looking up a formatter for values leaves the pool as it was. -/
theorem pool?_getRuntime {p : Option (Pool Builder)} (r : Repository) (t : Descriptor)
    (h : pool? (some r) = p) : pool? (some (r.getRuntime t).2) = p :=
  (congrArg some (r.pool_getRuntime t)).trans h

end Repository

open Repository (pool?)

/-- **Writing leaves the pool alone.** -/
theorem Formatter.pool_write (f : Formatter) (v : Option TypedValue) (d : Desk) :
    pool? (f.write v d).2.home = pool? d.home :=
  f.keepsHome (J := fun home => pool? home = pool? d.home) Repository.pool?_getRuntime v d rfl

theorem StaticFormatter.pool_write (f : StaticFormatter) (v : Option View) (d : Desk) :
    pool? (f.write v d).2.home = pool? d.home :=
  f.keepsHome (J := fun home => pool? home = pool? d.home) Repository.pool?_getRuntime v d rfl

/-! ## §2. So does everything else that a repository does. -/

namespace Repository

theorem pool_registerHandle (r : Repository) (target valueType : Descriptor) (f : Formatter) :
    (r.registerHandle target valueType f).2.pool = r.pool := by
  unfold registerHandle
  dsimp only
  split
  · rfl
  · exact pool_follow ..

theorem pool_registerGeneric (r : Repository) (definition : Descriptor) (k : Constructor Handle) :
    (r.registerGeneric definition k).2.pool = r.pool := by
  unfold registerGeneric
  dsimp only
  split
  · rfl
  · exact pool_follow ..

theorem pool_registering (p : Repository × Catalog) (b : HostType × TypedFormatter) :
    (registering p b).1.pool = p.1.pool := pool_registerHandle _ _ _ _

theorem pool_foldl_registering (bs : List (HostType × TypedFormatter)) :
    ∀ p : Repository × Catalog, (bs.foldl registering p).1.pool = p.1.pool := by
  induction bs with
  | nil => exact fun _ => rfl
  | cons b rest ih => exact fun p => (ih _).trans (pool_registering p b)

theorem pool_withBuiltins (r : Repository) (c : Catalog) : (r.withBuiltins c).1.pool = r.pool := by
  have htyped := pool_foldl_registering typedBuiltins (r, c)
  unfold withBuiltins
  generalize typedBuiltins.foldl registering (r, c) = p at htyped ⊢
  obtain ⟨r₁, c₁⟩ := p
  have hnullable := pool_registerGeneric r₁ Catalog.nullableDefinition nullableConstructor
  dsimp only
  rw [pool_registering]
  exact hnullable.trans htyped

theorem pool_reset (r : Repository) (c : Catalog) : (r.reset c).1.pool = r.pool := by
  unfold reset
  rw [pool_withBuiltins]

end Repository

/-! ## §3. Renting and giving back. -/

/-- The pool is made with these options and has no more builders than they allow, all of them
as if it had just made them. -/
structure Pool.Sound (o : PoolOptions) (p : Pool Builder) : Prop where
  options : p.options = o
  few : p.idle.length ≤ o.limit
  idle : ∀ b ∈ p.idle, b.Bounded ∧ b.Ready o

namespace Repository

variable {o : PoolOptions} {r : Repository} {b : Builder}

theorem sound_new (o : PoolOptions) : (Pool.new o : Pool Builder).Sound o :=
  ⟨rfl, Nat.zero_le _, fun _ hb => nomatch hb⟩

/-- A builder that is rented is ready, and no longer waits in the pool. -/
theorem rent_sound (h : r.pool.Sound o) : r.rent.1.Bounded ∧ r.rent.1.Ready o ∧
    r.rent.2.pool = { r.pool with idle := r.pool.idle.tail } ∧ r.rent.2.pool.Sound o := by
  cases hidle : r.pool.idle with
  | nil =>
      have hrent : r.rent = (.new r.pool.options.builder, r) := by
        simp only [rent, Pool.take, hidle]
      rw [hrent]
      refine ⟨Builder.bounded_ofRegion _ _, h.options ▸ Builder.ready_new r.pool.options, ?_, h⟩
      rw [List.tail_nil, ← hidle]
  | cons b rest =>
      obtain ⟨hb, hready⟩ := h.idle b (hidle ▸ List.mem_cons_self)
      have hfew := h.few
      rw [hidle, List.length_cons] at hfew
      have hrent : r.rent = (b, { r with pool := { r.pool with idle := rest } }) := by
        simp only [rent, Pool.take, hidle]
      rw [hrent]
      refine ⟨hb, hready, rfl, h.options, Nat.le_of_succ_le hfew, fun b' hb' => ?_⟩
      exact h.idle b' (hidle ▸ List.mem_cons_of_mem _ hb')

/-- Whatever builder is given back, the pool stays sound. -/
theorem giveBack_sound (h : r.pool.Sound o) (hb : b.Bounded) : (r.giveBack b).pool.Sound o := by
  unfold giveBack
  split
  · next hkept =>
      -- A builder is only kept if there is room for it.
      have hroom : r.pool.idle.length < r.pool.options.limit := by
        unfold Pool.fate at hkept
        split at hkept
        · cases hkept
        · split at hkept
          · split at hkept
            · next hroom => exact of_decide_eq_true hroom
            · cases hkept
          · cases hkept
      refine ⟨h.options, ?_, fun b' hb' => ?_⟩
      · rw [h.options] at hroom
        show (r.pool.idle ++ [b.clear]).length ≤ o.limit
        rw [List.length_append, List.length_singleton]
        exact hroom
      · rcases List.mem_append.mp hb' with hb' | hb'
        · exact h.idle b' hb'
        · rw [List.mem_singleton.mp hb']
          exact ⟨hb.clear, h.options ▸ Builder.ready_clear hkept⟩
  all_goals exact h

/-- **A builder of the pool comes back to it, cleared, if there is room.** -/
theorem giveBack_ready (h : r.pool.options = o) (hb : b.clear.Ready o) :
    (r.giveBack b).pool = { r.pool with
      idle := r.pool.idle ++ if r.pool.idle.length < o.limit then [b.clear] else [] } := by
  subst h
  have hcapacity : b.capacity = r.pool.options.builder.capacity := hb.capacity
  have hpolicy : b.policy = r.pool.options.builder.policy := hb.policy
  have halive : b.disposed = false := hb.disposed
  have hsuits : r.pool.suits b := by simp [Pool.suits, hcapacity, hpolicy]
  by_cases hroom : r.pool.idle.length < r.pool.options.limit
  · have hfate : r.pool.fate b = .kept := by simp [Pool.fate, halive, hsuits, Pool.hasRoom, hroom]
    rw [giveBack, hfate, if_pos hroom]
    rfl
  · have hfate : r.pool.fate b = .crowded := by
      simp [Pool.fate, halive, hsuits, Pool.hasRoom, hroom]
    rw [giveBack, hfate, if_neg hroom, List.append_nil]

end Repository

namespace Setting

variable {o : PoolOptions} {s : Setting}

/-- The builder that a value is written to. -/
theorem formatting_ready (h : s.repository.pool.Sound o) (t : HostType) :
    (s.formatting t).builder.Bounded ∧ (s.formatting t).builder.Ready o ∧
      pool? (s.formatting t).home =
        some { s.repository.pool with idle := s.repository.pool.idle.tail } := by
  have hpool := s.repository.pool_get s.catalog t
  obtain ⟨hb, hready, hrest, -⟩ := Repository.rent_sound (r := (s.repository.get s.catalog t).2.1)
    (hpool ▸ h)
  refine ⟨hb, hready, ?_⟩
  rw [hpool] at hrest
  exact congrArg some hrest

/-- What formatting makes of the pool. -/
theorem format_pool (s : Setting) (t : HostType) (v : Option View) {r : Repository}
    (hr : (s.formatted t v).home = some r) :
    (s.format t v).repository.pool = (r.giveBack (s.formatted t v).builder).pool := by
  rw [s.format_eq, hr]
  rfl

/-- The writing of a value is made of appends. -/
theorem formatting_appends (s : Setting) (t : HostType) (v : Option View) :
    Appends (fun _ => True)
      (DeskWork.beside ((s.repository.get s.catalog t).1.write v) (s.formatting t)) := by
  exact (StaticFormatter.amountsTo_appends (J := fun _ => True)
    (fun _ _ _ => ⟨Formatter.hosts_true _, trivial⟩) (StaticFormatter.hosts_true _) v
    (s.formatting t) trivial).1

/-- The repository is still there after a value was written, with the pool as it was. -/
theorem formatted_home (h : s.repository.pool.Sound o) (t : HostType) (v : Option View) :
    ∃ r, (s.formatted t v).home = some r ∧
      r.pool = { s.repository.pool with idle := s.repository.pool.idle.tail } := by
  have hkeeps := (s.repository.get s.catalog t).1.pool_write v (s.formatting t)
  rw [(formatting_ready h t).2.2] at hkeeps
  exact Option.map_eq_some_iff.mp hkeeps

/-- The builder after a value was written to it. -/
theorem formatted_builder (h : s.repository.pool.Sound o) (t : HostType) (v : Option View) :
    (s.formatted t v).builder.Bounded ∧ (s.formatted t v).builder.clear.Ready o := by
  obtain ⟨hb, hready, -⟩ := formatting_ready h t
  obtain ⟨hframed, hb'⟩ := (s.formatting_appends t v).keeps hb
  exact ⟨hb', rfl, hframed.disposed.trans hready.disposed,
    hframed.capacity.trans hready.capacity, hframed.policy.trans hready.policy⟩

/-- **The rented builder is back in the pool, cleared**, unless the pool keeps none. -/
theorem format_giveBack (h : s.repository.pool.Sound o) (t : HostType) (v : Option View) :
    (s.format t v).repository.pool = { s.repository.pool with
      idle := s.repository.pool.idle.tail ++
        if o.limit = 0 then [] else [(s.formatted t v).builder.clear] } := by
  obtain ⟨r, hr, hpool⟩ := formatted_home h t v
  obtain ⟨-, hready⟩ := formatted_builder h t v
  have hoptions : r.pool.options = o := by rw [hpool]; exact h.options
  rw [s.format_pool t v hr, Repository.giveBack_ready hoptions hready, hpool]
  -- One builder was taken out of the pool, or the pool was empty.
  have hfew := h.few
  have hroom : s.repository.pool.idle.tail.length < o.limit ↔ ¬ o.limit = 0 := by
    rw [List.length_tail]
    omega
  by_cases hnone : o.limit = 0
  · rw [if_pos hnone, if_neg fun hlt => hroom.mp hlt hnone]
  · rw [if_neg hnone, if_pos (hroom.mpr hnone)]

/-- **Formatting a value leaves the pool sound.** -/
theorem format_sound (h : s.repository.pool.Sound o) (t : HostType) (v : Option View) :
    (s.format t v).repository.pool.Sound o := by
  obtain ⟨r, hr, hpool⟩ := formatted_home h t v
  have hrented := (Repository.rent_sound h).2.2
  rw [s.format_pool t v hr]
  refine Repository.giveBack_sound ?_ (formatted_builder h t v).1
  rw [hpool, ← hrented.1]
  exact hrented.2

end Setting

/-! ## §4. Formatters of the host. -/

namespace Setting

variable {Host : HostWriting → Prop} {s : Setting}

open Repository (Hosting hosting)

/-- The repository at whose desk a value is formatted has the formatters that it had. -/
theorem hosting_formatting (h : s.repository.Holds (hosting Host)) (t : HostType) :
    Hosting Host (s.formatting t).home := by
  have hget := (Repository.hosts_get h s.catalog t).2
  obtain ⟨p, hp⟩ := (s.repository.get s.catalog t).2.1.rent_pool
  intro r he
  obtain rfl : (s.repository.get s.catalog t).2.1.rent.2 = r := Option.some.inj he
  rw [hp]
  exact hget.of_eq rfl rfl rfl

/-- **The writing of a value is made of appends and of writings that are known.** -/
theorem appends_formatting (h : s.repository.Holds (hosting Host)) (t : HostType)
    (v : Option View) : Appends Host
      (DeskWork.beside ((s.repository.get s.catalog t).1.write v) (s.formatting t)) :=
  (StaticFormatter.amountsTo_appends Hosting.getRuntime (Repository.hosts_get h s.catalog t).1 v
    (s.formatting t) (hosting_formatting h t)).1

/-- A new repository has no formatters of the host. -/
theorem holds_new (roleName : String) (role : HostType) (c : Catalog) (pool : PoolOptions)
    (names : EnumNames) :
    (Setting.new roleName role c pool names).repository.Holds (hosting Host) := by
  have hnew : (Repository.new roleName role c pool).1.Holds (hosting Host) :=
    Repository.holds_new ..
  unfold Setting.new
  generalize Repository.new roleName role c pool = p at hnew ⊢
  exact hnew

/-- A formatter that is registered is the only one that comes. -/
theorem holds_register (h : s.repository.Holds (hosting Host)) (t : HostType) {f : TypedFormatter}
    (hf : f.Hosts Host) : (s.register t f).repository.Holds (hosting Host) :=
  Repository.holds_register h s.catalog t hf

/-- Formatting a value brings no formatters. -/
theorem holds_format (h : s.repository.Holds (hosting Host)) (t : HostType) (v : Option View) :
    (s.format t v).repository.Holds (hosting Host) := by
  have hstart := hosting_formatting h t
  have hafter : Hosting Host (s.formatted t v).home :=
    (s.repository.get s.catalog t).1.keepsHome (fun r t hr => (Hosting.getRuntime r t hr).2) v
      (s.formatting t) hstart
  have hleft : ((s.formatted t v).home.getD (s.repository.get s.catalog t).2.1.rent.2).Holds
      (hosting Host) := by
    cases hhome : (s.formatted t v).home with
    | none => exact hstart _ rfl
    | some r => exact hafter r hhome
  rw [s.format_eq]
  obtain ⟨p, hp⟩ := ((s.formatted t v).home.getD
    (s.repository.get s.catalog t).2.1.rent.2).giveBack_pool (s.formatted t v).builder
  dsimp only
  rw [hp]
  exact hleft.of_eq rfl rfl rfl

end Setting

/-! ## §5. What is pending. -/

/-- The overflow that is pending in the builder that is rented next; nothing is in a new one. -/
def Pool.pending? (p : Pool Builder) : Option Overflow := p.idle.head?.bind (·.pending)

namespace Repository

theorem rent_pending (r : Repository) : r.rent.1.pending = r.pool.pending? := by
  unfold rent Pool.take Pool.pending?
  cases r.pool.idle with
  | nil => rfl
  | cons b rest => rfl

end Repository
end ValueText
