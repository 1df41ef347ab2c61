/-
  ValueText.Proofs.Repository.Resetting — when a repository that was reset is a new one.

  Resetting a repository forgets its registrations and what it remembers, its
  subscribers and what constructors made for it, and registers the first formatters
  again.  Three things stay: its numbers go on, it still knows its role, and a builder
  may wait in its pool.  That builder is as good as new unless an overflow is pending in
  it.  If none is, the repository is the counterpart of one that is made now, over the
  catalogue as it is now: whatever both are asked from then on, they answer the same, and
  only the numbers of registrations tell them apart.

  An overflow is left pending by a formatter of the host that displays a value which says
  that all went well although a piece of it was refused.  It outlives the reset, and the
  next value whose display fails is answered by it.

  Main results:

    • `Setting.Request`, `serve`  what a repository may be asked, and its answer;
    • `Counterparts.serve`        counterparts answer one request alike;
    • `Counterparts.serveAll`     and so they answer several;
    • `Candid.serve`              a repository whose formatters are candid stays so;
    • `reset_eq_new`              after any history, a reset repository answers as a new
                                  one does, unless an overflow is pending.
-/
import ValueText.Proofs.Formatter.Candid
import ValueText.Proofs.Repository.Counterparts

namespace ValueText

namespace Setting

/-! ## §1. Requests. -/

/-- What may be asked of a repository, or happen to its catalogue. -/
inductive Request
  /-- More types become known. -/
  | learn (change : Catalog → Catalog)
      (keeps : ∀ c k d, c.get? k = some d → (change c).get? k = some d)
  | register (t : HostType) (f : TypedFormatter)
  | registerHandle (target valueType : Descriptor) (f : Formatter)
  | registerGeneric (definition : Descriptor) (k : Constructor Handle)
  | setDynamic (t : HostType)
  | get (t : HostType)
  | getRuntime (d : Descriptor)
  | registeredTypes
  | format (t : HostType) (v : Option View)
  /-- A formatter, wherever it is from, writes to a new builder. -/
  | write (f : Formatter) (v : Option TypedValue) (o : BuilderOptions)
  | reset

/-- The answer to a request. -/
inductive Answer
  | nothing
  | outcome (r : Except RegistrationError Unit)
  | static (f : StaticFormatter)
  | handle (h : Handle)
  | types (ds : List Descriptor)
  | text (r : Except Overflow String)
  | written (r : Except Overflow Unit) (text : String)

/-- The same answer after `n` more registrations. -/
def Answer.shift (n : Nat) : Answer → Answer
  | .handle h => .handle (h.shift n)
  | a => a

/-- Answers a request. -/
def serve (s : Setting) : Request → Answer × Setting
  | .learn change _ => (.nothing, { s with catalog := change s.catalog })
  | .register t f =>
      let (a, p) := s.repository.register s.catalog t f
      (.outcome a, s.update p)
  | .registerHandle target valueType f =>
      let (a, r) := s.repository.registerHandle target valueType f
      (.outcome a, { s with repository := r })
  | .registerGeneric definition k =>
      let (a, r) := s.repository.registerGeneric definition k
      (.outcome a, { s with repository := r })
  | .setDynamic t =>
      let (a, p) := s.repository.setDynamic s.catalog t
      (.outcome a, s.update p)
  | .get t =>
      let (f, p) := s.repository.get s.catalog t
      (.static f, s.update p)
  | .getRuntime d =>
      let (h, r) := s.repository.getRuntime d
      (.handle h, { s with repository := r })
  | .registeredTypes => (.types s.repository.factory.registeredTypes, s)
  | .format t v => (.text (s.formatAnswer t v), s.format t v)
  | .write f v o =>
      let (a, d) := f.write v (s.desk (.new o))
      (.written a d.builder.text, s.after d)
  | .reset => (.nothing, s.update (s.repository.reset s.catalog))

/-- Answers requests, one after another. -/
def serveAll (s : Setting) : List Request → List Answer × Setting
  | [] => ([], s)
  | q :: rest =>
      let (a, s) := s.serve q
      let (as, s) := s.serveAll rest
      (a :: as, s)

/-! ## §2. Counterparts answer alike. -/

variable {T : Repository.Terms} {s s' : Setting}

theorem Counterparts.update {p p' : Repository × Catalog} (h : T.Hold p p')
    (hnames : s'.names = s.names) : Counterparts T (s.update p) (s'.update p') := ⟨h, hnames⟩

/-- **Counterparts answer a request alike**, and are counterparts afterwards. -/
theorem Counterparts.serve (h : Counterparts T s s') (q : Request) :
    (s'.serve q).1 = (s.serve q).1.shift T.registrations ∧
      Counterparts T (s.serve q).2 (s'.serve q).2 := by
  obtain ⟨r, c, names⟩ := s
  obtain ⟨r', c', names'⟩ := s'
  obtain rfl : c' = c := h.hold.catalog
  have hold : T.Hold (r, c') (r', c') := h.hold
  cases q with
  | learn change keeps =>
      exact ⟨rfl, ⟨hold.repositories, rfl, keeps c' _ _ hold.role⟩, h.names⟩
  | register t f =>
      obtain ⟨hanswer, hafter⟩ := hold.registerFor t (.direct t f)
      exact ⟨congrArg Answer.outcome hanswer, hafter, h.names⟩
  | registerHandle target valueType f =>
      obtain ⟨hanswer, hafter⟩ := hold.repositories.registerHandle target valueType f
      exact ⟨congrArg Answer.outcome hanswer, ⟨hafter, rfl, hold.role⟩, h.names⟩
  | registerGeneric definition k =>
      obtain ⟨hanswer, hafter⟩ := hold.repositories.registerGeneric definition k
      exact ⟨congrArg Answer.outcome hanswer, ⟨hafter, rfl, hold.role⟩, h.names⟩
  | setDynamic t =>
      obtain ⟨hanswer, hafter⟩ := hold.registerFor t (.general .dynamic)
      exact ⟨congrArg Answer.outcome hanswer, hafter, h.names⟩
  | get t =>
      obtain ⟨hanswer, hafter⟩ := hold.get t
      exact ⟨congrArg Answer.static hanswer, hafter, h.names⟩
  | getRuntime d =>
      obtain ⟨hanswer, hafter⟩ := hold.repositories.getRuntime d
      exact ⟨congrArg Answer.handle hanswer, ⟨hafter, rfl, hold.role⟩, h.names⟩
  | registeredTypes =>
      exact ⟨congrArg Answer.types hold.repositories.factory.registeredTypes, h⟩
  | format t v =>
      obtain ⟨hanswer, hafter⟩ := h.format t v
      exact ⟨congrArg Answer.text hanswer, hafter⟩
  | write f v o =>
      obtain ⟨hanswer, htext, hafter⟩ := h.write f v o
      exact ⟨congr (congrArg Answer.written hanswer) htext, hafter⟩
  | reset => exact ⟨rfl, .update hold.reset h.names⟩

/-- **Counterparts answer all requests alike.** -/
theorem Counterparts.serveAll (qs : List Request) : ∀ {s s' : Setting}, Counterparts T s s' →
    (s'.serveAll qs).1 = (s.serveAll qs).1.map (Answer.shift T.registrations) ∧
      Counterparts T (s.serveAll qs).2 (s'.serveAll qs).2 := by
  induction qs with
  | nil => exact fun h => ⟨rfl, h⟩
  | cons q rest ih =>
      intro s s' h
      obtain ⟨hanswer, hafter⟩ := h.serve q
      obtain ⟨hanswers, hleft⟩ := ih hafter
      exact ⟨congr (congrArg List.cons hanswer) hanswers, hleft⟩

/-! ## §3. Resetting. -/

/-- The terms on which a repository is made, and its numbers. -/
abbrev terms (roleName : String) (role : HostType) (d : Descriptor) (pool : PoolOptions)
    (r : Repository) : Repository.Terms :=
  ⟨roleName, role, d, pool, r.registrations, r.factory.lastSequence⟩

variable {roleName : String} {d : Descriptor} {pool : PoolOptions}

theorem proper_blank (T : Repository.Terms) :
    (Repository.blank T.roleName T.role T.pool).Proper T :=
  ⟨rfl, Repository.sound_new _, nofun, Nat.zero_le 1⟩

/-- A repository that has forgotten everything is blank, but for its numbers and for what is pending
in its pool. -/
theorem counterparts_forget (role : HostType) {r : Repository}
    (h : r.Proper (terms roleName role d pool r)) (hrole : r.factory.role = some d)
    (hnone : r.pool.pending? = none) :
    Repository.Counterparts (terms roleName role d pool r) (.blank roleName d pool) r.forget :=
  ⟨proper_blank _, h.of_eq rfl rfl, hnone,
    ⟨rfl, hrole, (Nat.zero_add _).symm, rfl, rfl, rfl, rfl, rfl⟩, rfl, rfl, (Nat.zero_add _).symm⟩

/-- **A repository that was reset is the counterpart of a new one**, if nothing is pending. -/
theorem counterparts_reset {s : Setting} {T : Repository.Terms} (h : Counterparts T s s)
    (hnone : s.repository.pool.pending? = none) :
    Counterparts (terms T.roleName T.roleType T.role T.pool s.repository)
      (Setting.new T.roleName T.roleType s.catalog T.pool s.names) (s.serve .reset).2 := by
  obtain ⟨hname, hsound, hwhole, hfew⟩ := h.hold.repositories.left
  have hforgotten := counterparts_forget T.roleType ⟨hname, hsound, hwhole, hfew⟩
    h.hold.repositories.factory.role hnone
  have hstart : (terms T.roleName T.roleType T.role T.pool s.repository).Hold
      (.blank T.roleName T.role T.pool, s.catalog) (s.repository.forget, s.catalog) :=
    ⟨hforgotten, rfl, h.hold.role⟩
  have htype : s.catalog.typeOf T.roleType = (T.role, s.catalog) := by
    have hknown : s.catalog.get? (.host T.roleType) = some T.role := h.hold.role
    unfold Catalog.typeOf
    rw [hknown]
  have hnew : Setting.new T.roleName T.roleType s.catalog T.pool s.names =
      s.update ((Repository.blank T.roleName T.role T.pool).withBuiltins s.catalog) := by
    rw [Setting.new_eq, htype, update]
  rw [hnew]
  exact .update hstart.withBuiltins rfl

/-- A new repository is made on its terms, and stays so whatever it is asked. -/
theorem counterparts_self (roleName : String) (role : HostType) (c : Catalog)
    (pool : PoolOptions) (names : EnumNames) (qs : List Request) :
    Counterparts ⟨roleName, role, (c.typeOf role).1, pool, 0, 0⟩
      ((Setting.new roleName role c pool names).serveAll qs).2
      ((Setting.new roleName role c pool names).serveAll qs).2 := by
  have hknown : (c.typeOf role).2.get? (.host role) = some (c.typeOf role).1 := by
    unfold Catalog.typeOf
    split
    · next hd => exact hd
    · exact (Catalog.get?_insert ..).trans (if_pos rfl)
  have hblank := counterparts_forget role (r := .blank roleName (c.typeOf role).1 pool)
    (proper_blank ⟨roleName, role, (c.typeOf role).1, pool, 0, 0⟩) rfl rfl
  have hstart : Repository.Terms.Hold ⟨roleName, role, (c.typeOf role).1, pool, 0, 0⟩
      (.blank roleName (c.typeOf role).1 pool, (c.typeOf role).2)
      (.blank roleName (c.typeOf role).1 pool, (c.typeOf role).2) := ⟨hblank, rfl, hknown⟩
  have hbuiltins := hstart.withBuiltins
  rw [Setting.new_eq]
  generalize Repository.withBuiltins _ _ = p at hbuiltins ⊢
  have hnew : Counterparts ⟨roleName, role, (c.typeOf role).1, pool, 0, 0⟩
      (⟨p.1, p.2, names⟩ : Setting) ⟨p.1, p.2, names⟩ := ⟨hbuiltins, rfl⟩
  exact (hnew.serveAll qs).2

/-! ## §4. What is pending. -/

open Repository (Hosting hosting)

/-- The writings of all host formatters that the request brings are known. -/
def Request.Hosts (Host : HostWriting → Prop) : Request → Prop
  | .register _ f => f.Hosts Host
  | .registerHandle _ _ f => f.Hosts Host
  | .registerGeneric _ k =>
      ∀ closed arguments h, k.build closed arguments = .ok h → h.formatter.Hosts Host
  | _ => True

/-- **A repository has the formatters that it was brought**, besides those of the library. -/
theorem holds_serve {Host : HostWriting → Prop} (hs : s.repository.Holds (hosting Host))
    {q : Request} (hq : q.Hosts Host) : (s.serve q).2.repository.Holds (hosting Host) := by
  cases q with
  | learn change keeps => exact hs
  | register t f => exact holds_register hs t hq
  | registerHandle target valueType f => exact (hs.registerHandle hq).holds
  | registerGeneric definition k => exact (hs.registerGeneric hq).holds
  | setDynamic t => exact (hs.registerHandle (f := .general .dynamic) trivial).holds
  | get t => exact (Repository.hosts_get hs s.catalog t).2
  | getRuntime d => exact (Repository.hosts_getRuntime hs d).2
  | registeredTypes => exact hs
  | format t v => exact holds_format hs t v
  | write f v o =>
      -- The formatter may be from elsewhere, and looks up others in the repository.
      have hhome : Hosting Host (f.write v (s.desk (.new o))).2.home :=
        f.keepsHome (fun r t h => (Hosting.getRuntime r t h).2) v (s.desk (.new o))
          fun _ he => Option.some.inj he ▸ hs
      show ((f.write v (s.desk (.new o))).2.home.getD s.repository).Holds (hosting Host)
      cases hr : (f.write v (s.desk (.new o))).2.home with
      | none => exact hs
      | some r => exact hhome r hr
  | reset =>
      have hnew : (s.repository.reset s.catalog).1.Holds (hosting Host) :=
        s.repository.holds_reset s.catalog
      show (s.update (s.repository.reset s.catalog)).repository.Holds (hosting Host)
      generalize s.repository.reset s.catalog = p at hnew ⊢
      exact hnew

/-- A request other than one to format a value leaves the pool alone. -/
theorem pool_serve (s : Setting) {q : Request} (hq : ∀ t v, q ≠ .format t v) :
    (s.serve q).2.repository.pool = s.repository.pool := by
  cases q with
  | learn change keeps => rfl
  | register t f => exact Repository.pool_registerHandle ..
  | registerHandle target valueType f => exact Repository.pool_registerHandle ..
  | registerGeneric definition k => exact Repository.pool_registerGeneric ..
  | setDynamic t => exact Repository.pool_registerHandle ..
  | get t => exact s.repository.pool_get s.catalog t
  | getRuntime d => exact s.repository.pool_getRuntime d
  | registeredTypes => rfl
  | format t v => exact absurd rfl (hq t v)
  | write f v o =>
      obtain ⟨r, hr, hpool⟩ := Option.map_eq_some_iff.mp (f.pool_write v (s.desk (.new o)))
      show ((f.write v (s.desk (.new o))).2.home.getD s.repository).pool = _
      rw [hr]
      exact hpool
  | reset =>
      have hpool := s.repository.pool_reset s.catalog
      show (s.update (s.repository.reset s.catalog)).repository.pool = s.repository.pool
      generalize s.repository.reset s.catalog = p at hpool ⊢
      exact hpool

/-- The formatters of the host are candid, and nothing is pending in the pool. -/
structure Candid (s : Setting) : Prop where
  holds : s.repository.Holds (hosting HostWriting.Candid)
  quiet : s.repository.pool.pending? = none

/-- **Formatting a value leaves nothing pending**, if the formatters of the host are candid. -/
theorem Candid.quiet_format (hs : s.Candid) (hproper : s.repository.Proper T) (t : HostType)
    (v : Option View) : (s.format t v).repository.pool.pending? = none := by
  have hnone : (s.formatting t).builder.pending = none :=
    ((s.repository.get s.catalog t).2.1.rent_pending).trans
      ((congrArg Pool.pending? (s.repository.pool_get s.catalog t)).trans hs.quiet)
  have hafter : (s.formatted t v).builder.pending = none :=
    (appends_formatting hs.holds t v).pending (formatting_ready hproper.sound t).1 hnone
  rw [pending_format hproper, hafter, ite_self]

/-- **A request with candid formatters leaves nothing pending.** -/
theorem Candid.serve (hs : s.Candid) (hproper : s.repository.Proper T) {q : Request}
    (hq : q.Hosts HostWriting.Candid) : (s.serve q).2.Candid := by
  refine ⟨holds_serve hs.holds hq, ?_⟩
  by_cases hformat : ∃ t v, q = .format t v
  · obtain ⟨t, v, rfl⟩ := hformat
    exact hs.quiet_format hproper t v
  · rw [s.pool_serve fun t v hc => hformat ⟨t, v, hc⟩]
    exact hs.quiet

/-- **Requests with candid formatters leave nothing pending.** -/
theorem Candid.serveAll (qs : List Request) : ∀ {s : Setting}, s.Candid → Counterparts T s s →
    (∀ q ∈ qs, q.Hosts HostWriting.Candid) → (s.serveAll qs).2.Candid := by
  induction qs with
  | nil => exact fun hs _ _ => hs
  | cons q rest ih =>
      intro s hs hself hqs
      exact ih (hs.serve hself.hold.repositories.left (hqs q List.mem_cons_self))
        (hself.serve q).2 fun q' hq' => hqs q' (List.mem_cons_of_mem _ hq')

/-- Nothing was written with a new repository. -/
theorem candid_new (roleName : String) (role : HostType) (c : Catalog) (pool : PoolOptions)
    (names : EnumNames) : (Setting.new roleName role c pool names).Candid := by
  refine ⟨Setting.holds_new roleName role c pool names, ?_⟩
  have hpool := Repository.pool_withBuiltins (.blank roleName (c.typeOf role).1 pool)
    (c.typeOf role).2
  rw [Setting.new_eq]
  generalize Repository.withBuiltins _ _ = p at hpool ⊢
  exact congrArg Pool.pending? hpool

/-! ## §5. Resetting after any history. -/

/-- **A repository that was reset answers as a new one does, unless an overflow is pending in the
builder of its pool.**  Whatever was asked of it before, it then gives the same outcomes,
formatters and texts as a repository that is made on the same terms over the catalogue as it is
now.  Only the numbers by which registrations are told apart go on, by as many as were tried.
Nothing is pending where overflows are only reported, or where all formatters of the host that
were brought are candid. -/
theorem reset_eq_new (roleName : String) (role : HostType) (c : Catalog) (pool : PoolOptions)
    (names : EnumNames) (before later : List Request) :
    let s := ((Setting.new roleName role c pool names).serveAll before).2
    (s.repository.pool.pending? = none →
      ((s.serve .reset).2.serveAll later).1 =
        ((Setting.new roleName role s.catalog pool s.names).serveAll later).1.map
          (Answer.shift s.repository.registrations)) ∧
    (pool.builder.policy = .report ∨ (∀ q ∈ before, q.Hosts HostWriting.Candid) →
      s.repository.pool.pending? = none) := by
  intro s
  have hself := counterparts_self roleName role c pool names before
  refine ⟨fun hnone => ((counterparts_reset hself hnone).serveAll later).1, ?_⟩
  rintro (hreport | hcandid)
  · -- Overflows that are only reported are never pending.
    have hsound := hself.hold.repositories.left.sound
    cases hidle : s.repository.pool.idle with
    | nil => rw [Pool.pending?, hidle]; rfl
    | cons b rest =>
        obtain ⟨hb, hready⟩ := hsound.idle b (hidle ▸ List.mem_cons_self)
        rw [Pool.pending?, hidle]
        exact hb.pending (hready.policy.trans hreport)
  · have hstart := counterparts_self roleName role c pool names []
    exact ((candid_new roleName role c pool names).serveAll before hstart hcandid).quiet

/-- A formatter of the host that displays the same for all values. -/
def displaying (v : Display) : TypedFormatter :=
  .custom .normal fun _ => .display v fun answer => .done (answer.map fun _ => ())

/-- Truth values are to be displayed like this, and one is. -/
def shown (v : Display) : List Request :=
  [.register .bool (displaying v), .format .bool (some (.plain (.bool true)))]

/-- A pool of builders for four units, which refuse what does not fit. -/
def tightPool : PoolOptions := { builder := ⟨4, .error⟩ }

/-- A repository with such a pool, after a truth value was displayed. -/
def tight (v : Display) : Setting :=
  ((Setting.new "log" .object { spelling := Catalog.shortPaths } tightPool {}).serveAll (shown v)).2

/-- A new repository over the types that are known then. -/
def renewed (v : Display) : Setting :=
  .new "log" .object (tight v).catalog tightPool (tight v).names

/-- A text that does not fit is refused, and leaves nothing behind in the builder that waits. -/
theorem reset_eq_new_refused :
    ((tight (.ofPieces true ["abcdef"])).serve .reset).2.repository.pool.size = 1 ∧
    (((tight (.ofPieces true ["abcdef"])).serve .reset).2.serveAll
        (shown (.ofPieces false ["x"]))).1 =
      ((renewed (.ofPieces true ["abcdef"])).serveAll (shown (.ofPieces false ["x"]))).1.map
        (Answer.shift (tight (.ofPieces true ["abcdef"])).repository.registrations) := by
  obtain ⟨heq, hquiet⟩ := reset_eq_new "log" .object { spelling := Catalog.shortPaths } tightPool {}
    (shown (.ofPieces true ["abcdef"])) (shown (.ofPieces false ["x"]))
  refine ⟨by decide +kernel, ?_⟩
  unfold renewed tight
  refine heq (hquiet (.inr fun q hq => ?_))
  rcases List.mem_cons.mp hq with rfl | hq
  · exact fun v => ⟨Display.candid_ofPieces true ["abcdef"], fun answer => trivial⟩
  · rw [List.mem_singleton.mp hq]
    trivial

/-- A value that says that all went well, although it does not look. -/
def careless : Display := .write "abcdef" fun _ => .done true

/-- The text that is answered, if it is one. -/
def Answer.text? : Answer → Option String
  | .text (.ok s) => some s
  | _ => none

/-- **An overflow outlives the reset.**  A careless value leaves it pending in the builder, and the
next value whose display fails is answered by it.  A new repository answers the text that is left,
which is empty. -/
theorem reset_unlike_new :
    (((tight careless).serve .reset).2.serveAll (shown (.ofPieces false ["x"]))).1 ≠
      ((renewed careless).serveAll (shown (.ofPieces false ["x"]))).1.map
        (Answer.shift (tight careless).repository.registrations) := by
  intro heq
  have htexts := congrArg (fun as => as.map Answer.text?) heq
  revert htexts
  decide +kernel

end Setting
end ValueText
