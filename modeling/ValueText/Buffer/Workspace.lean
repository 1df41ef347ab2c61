/-
  ValueText.Buffer.Workspace — builders, snapshots, pools and regions by name.

  A workspace gives names to the objects of this layer and keeps track of who
  refers to whom:

    • a name, a pool or nobody owns a builder; losing its name disposes it;
    • several names may hold one snapshot;
    • a builder keeps the last snapshot it made and uses it again once no name
      holds it;
    • the memory of a disposed builder is released unless a snapshot that is
      still bound to it is held.

  Builders and snapshots are numbered and never forgotten, so that a snapshot can
  look at what a disposed builder published last.  `Workspace.step` runs one step
  and answers a `Reply`; a `Fault` leaves the workspace as it was.
-/
import ValueText.Buffer.Pool
import ValueText.Buffer.Snapshot
import ValueText.Table

namespace ValueText

/-- Names a snapshot that a name or a builder holds. -/
structure SnapshotId where
  index : Nat
  deriving DecidableEq, Repr

/-- A builder and the snapshot it made last. -/
structure Tenant where
  builder : Builder
  cached : Option SnapshotId := none
  deriving DecidableEq

/-- Everything that names can refer to. -/
structure Workspace where
  tenants : Array Tenant := #[]
  snapshots : Array Snapshot := #[]
  regions : Array Region := #[]
  builderNames : Table String BuilderId := .empty
  /-- The last builder made under a name over memory of somebody else. -/
  borrowers : Table String BuilderId := .empty
  snapshotNames : Table String SnapshotId := .empty
  poolNames : Table String (Pool BuilderId) := .empty
  regionNames : Table String Nat := .empty
  /-- The last region made under a name over memory of somebody else. -/
  adopted : Table String Nat := .empty

namespace Workspace

/-! ## §1. Steps and answers. -/

/-- What a step does to a builder. -/
inductive Edit
  | unit (u : CodeUnit)
  | units (us : List CodeUnit)
  | char (c : Char)
  | repeated (u : CodeUnit) (count : Nat)
  | text (s : String)
  | bool (v : Bool)
  | int (w : IntWidth) (n : Int)
  | pieces (ps : List String) (complete : Bool)
  | sink (s : String)
  | builder (other : String)
  | snapshot (s : String)
  | terminate
  | clear
  | dispose
  | truncate (n : Nat)
  | get (i : Nat)
  | set (i : Nat) (u : CodeUnit)

/-- What a step reads from a snapshot, or does to it.  `display` is the text, too, read by the
display of the snapshot and not by the snapshot itself. -/
inductive Look
  | text | display | array | segment | freeze | recycle

/-- What a step does to a region. -/
inductive Access
  | release
  | load (i : Nat)
  | store (i : Nat) (u : CodeUnit)
  | storeSlice (i : Nat) (us : List CodeUnit)
  | fill (lo hi : Nat) (u : CodeUnit)
  | copyTo (lo hi : Nat) (out : List CodeUnit)
  | copyFrom (i : Nat) (source : String) (lo hi : Nat)

/-- A step of a session. -/
inductive Step
  | newBuilder (b : String) (o : BuilderOptions)
  | borrow (b : String) (memory : List CodeUnit) (policy : OverflowPolicy)
  | dropBuilder (b : String)
  | edit (b : String) (e : Edit)
  | snap (b : String) (keep : String)
  | ofUnits (s : String) (us : List CodeUnit)
  | ofText (s : String) (t : String)
  | ofSegment (s : String) (us : List CodeUnit) (start length : Nat)
  | clone (s : String) (source : String)
  | dropSnapshot (s : String)
  | look (s : String) (l : Look)
  | newPool (p : String) (o : PoolOptions)
  | take (p : String) (b : String)
  | giveBack (p : String) (b : String)
  | rent (p : String) (t : String) (keep : Option String)
  | allocate (g : String) (capacity : Nat)
  | adopt (g : String) (memory : List CodeUnit)
  | access (g : String) (a : Access)

/-- The answer of a step. -/
inductive Reply
  | done
  | flag (v : Bool)
  | unit (u : CodeUnit)
  | units (us : List CodeUnit)
  | text (s : String)
  | segment (s : Segment)
  | overflow (e : Overflow)
  | stale
  | rented (appended : Reply) (b : Builder) (idle : Nat)

/-- Why a step is refused. -/
inductive Fault
  | outOfRange
  | badSegment (start length size : Nat)
  | unknownName (name : String)

/-- The wording of a refusal, where there is one. -/
def Fault.message : Fault → Option String
  | .outOfRange => none
  | .badSegment start length size =>
      some ("segment " ++ Numeral.ofNat start ++ "+" ++ Numeral.ofNat length
        ++ " is outside an array of " ++ Numeral.ofNat size)
  | .unknownName name => some ("nothing has the name " ++ Literal.quote name)

/-- The answer of an append. -/
def Reply.ofAppend : Except Overflow Bool → Reply
  | .ok v => .flag v
  | .error e => .overflow e

/-! ## §2. Looking up. -/

variable (w : Workspace)

/-- The builder with a number. -/
def builderAt? (id : BuilderId) : Option Builder := (w.tenants[id.index]?).map (·.builder)

/-- What a builder publishes. -/
def see (id : BuilderId) : Published :=
  match w.builderAt? id with
  | some b => b.published
  | none => ⟨.allocate 0, 0, 0⟩

/-- The number of a named builder. -/
def builderId (name : String) : Except Fault BuilderId :=
  match w.builderNames.get? name with
  | some id => .ok id
  | none => .error (.unknownName name)

/-- The builder with a name. -/
def builder? (name : String) : Option Builder := (w.builderNames.get? name).bind w.builderAt?

/-- The named builder and its number. -/
def builder (name : String) : Except Fault (BuilderId × Tenant) := do
  let id ← w.builderId name
  match w.tenants[id.index]? with
  | some t => .ok (id, t)
  | none => .error (.unknownName name)

/-- The named snapshot and its number. -/
def snapshot (name : String) : Except Fault (SnapshotId × Snapshot) :=
  match w.snapshotNames.get? name with
  | none => .error (.unknownName name)
  | some id =>
      match w.snapshots[id.index]? with
      | some s => .ok (id, s)
      | none => .error (.unknownName name)

/-- The snapshot with a name. -/
def snapshot? (name : String) : Option Snapshot := (w.snapshot name).toOption.map (·.2)

/-- The pool with a name. -/
def pool (name : String) : Except Fault (Pool BuilderId) :=
  match w.poolNames.get? name with
  | some p => .ok p
  | none => .error (.unknownName name)

/-- The named region and its number. -/
def region (name : String) : Except Fault (Nat × Region) :=
  match w.regionNames.get? name with
  | none => .error (.unknownName name)
  | some i =>
      match w.regions[i]? with
      | some r => .ok (i, r)
      | none => .error (.unknownName name)

/-- The region with a name. -/
def region? (name : String) : Option Region := (w.region name).toOption.map (·.2)

/-- The memory that a builder writes to.  A lender sees it still when the builder is gone. -/
def memory? (id : BuilderId) : Option (List CodeUnit) :=
  (w.builderAt? id).map (·.region.cells.toList)

/-- The memory lent to the last builder that was made over it under the name. -/
def lentToBuilder? (name : String) : Option (List CodeUnit) :=
  (w.borrowers.get? name).bind w.memory?

/-- The memory lent to the last region that was made over it under the name. -/
def lentToRegion? (name : String) : Option (List CodeUnit) :=
  ((w.adopted.get? name).bind fun i => w.regions[i]?).map (·.cells.toList)

/-- Whether a name holds the snapshot. -/
def isHeld (id : SnapshotId) : Bool := w.snapshotNames.values.contains id

/-- Whether a name holds a snapshot that is bound to the builder. -/
def isShared (id : BuilderId) : Bool :=
  w.snapshotNames.values.any fun s =>
    match w.snapshots[s.index]? with
    | some s => s.boundTo? = some id
    | none => false

/-! ## §3. Builders. -/

/-- Changes the builder with a number. -/
def setBuilder (id : BuilderId) (b : Builder) : Workspace :=
  { w with tenants := w.tenants.modify id.index fun t => { t with builder := b } }

/-- Adds a builder that nobody owns yet. -/
def addBuilder (b : Builder) : BuilderId × Workspace :=
  (⟨w.tenants.size⟩, { w with tenants := w.tenants.push ⟨b, none⟩ })

/-- Disposes a builder, and lets the snapshot go that it kept. -/
def disposeBuilder (id : BuilderId) : Workspace :=
  match w.builderAt? id with
  | none => w
  | some b =>
      if b.disposed then w
      else
        { w with tenants := w.tenants.modify id.index fun _ => ⟨b.dispose (w.isShared id), none⟩ }

/-- Gives a builder a name; the builder that had it is disposed. -/
def nameBuilder (name : String) (id : BuilderId) : Workspace :=
  let w' := { w with builderNames := w.builderNames.set name id }
  match w.builderNames.get? name with
  | some old => w'.disposeBuilder old
  | none => w'

/-- Takes a builder's name away. -/
def unnameBuilder (name : String) : Workspace :=
  { w with builderNames := w.builderNames.erase name }

/-! ## §4. Snapshots. -/

/-- Adds a snapshot that nobody holds yet. -/
def addSnapshot (s : Snapshot) : SnapshotId × Workspace :=
  (⟨w.snapshots.size⟩, { w with snapshots := w.snapshots.push s })

/-- Changes the snapshot with a number. -/
def setSnapshot (id : SnapshotId) (s : Snapshot) : Workspace :=
  { w with snapshots := w.snapshots.modify id.index fun _ => s }

/-- Lets a name hold a snapshot. -/
def nameSnapshot (name : String) (id : SnapshotId) : Workspace :=
  { w with snapshotNames := w.snapshotNames.set name id }

/-- The snapshot that a builder made last, moved to the present content, if
nobody holds it and it is still bound. -/
def reusable? (t : Tenant) : Option (SnapshotId × Snapshot) :=
  match t.cached with
  | none => none
  | some id =>
      if w.isHeld id then none
      else ((w.snapshots[id.index]?).bind fun s => s.recycle? w.see).map fun s => (id, s)

/-- A snapshot of a builder's content. -/
def takeSnapshot (id : BuilderId) (t : Tenant) : SnapshotId × Workspace :=
  match w.reusable? t with
  | some (sid, s) => (sid, w.setSnapshot sid s)
  | none =>
      let (sid, w) := w.addSnapshot (.bind id t.builder)
      (sid, { w with tenants := w.tenants.modify id.index fun t => { t with cached := some sid } })

/-! ## §5. Pools. -/

/-- Changes the pool with a name. -/
def setPool (name : String) (p : Pool BuilderId) : Workspace :=
  { w with poolNames := w.poolNames.set name p }

/-- The builder that waits longest in a pool, or a new one. -/
def takeFrom (name : String) (p : Pool BuilderId) : BuilderId × Workspace :=
  match p.take with
  | (some id, p) => (id, w.setPool name p)
  | (none, _) => w.addBuilder (.new p.options.builder)

/-- Returns a builder, which has no name any more, to a pool. -/
def giveBackTo (name : String) (p : Pool BuilderId) (id : BuilderId) : Workspace :=
  match w.builderAt? id with
  | none => w
  | some b =>
      match p.fate b with
      | .forgotten => w
      | .unsuitable => w.disposeBuilder id
      | .crowded => (w.setBuilder id b.clear).disposeBuilder id
      | .kept => (w.setBuilder id b.clear).setPool name (p.put id)

/-! ## §6. One step. -/

/-- An edit of a builder. -/
def edit (id : BuilderId) (t : Tenant) (e : Edit) : Except Fault (Reply × Workspace) :=
  let b := t.builder
  let appended (r : Appended) : Except Fault (Reply × Workspace) :=
    .ok (.ofAppend r.1, w.setBuilder id r.2)
  match e with
  | .unit u => appended (b.appendUnit u)
  | .units us => appended (b.appendUnits us)
  | .char c => appended (b.appendChar c)
  | .repeated u n => appended (b.appendRepeated u n)
  | .text s => appended (b.appendText s)
  | .bool v => appended (b.appendBool v)
  | .int width n => appended (b.appendInt width n)
  | .pieces ps complete => appended (b.appendPieces ps complete)
  | .sink s =>
      let (ok, b) := b.sink s
      .ok (.flag ok, w.setBuilder id b)
  | .builder other => do
      let (_, o) ← w.builder other
      appended (b.appendBuilder o.builder)
  | .snapshot name => do
      let (sid, s) ← w.snapshot name
      match s.readSegment? w.see with
      | none => .ok (.stale, w)
      | some (seg, s) =>
          let r := b.appendUnits seg.units
          .ok (.ofAppend r.1, (w.setSnapshot sid s).setBuilder id r.2)
  | .terminate => appended b.terminate
  | .clear => .ok (.done, w.setBuilder id b.clear)
  | .dispose => .ok (.done, w.disposeBuilder id)
  | .truncate n => .ok (.done, w.setBuilder id (b.truncate n))
  | .get i =>
      match b.get? i with
      | some u => .ok (.unit u, w)
      | none => .error .outOfRange
  | .set i u =>
      match b.set? i u with
      | some b => .ok (.done, w.setBuilder id b)
      | none => .error .outOfRange

/-- A look at a snapshot. -/
def look (id : SnapshotId) (s : Snapshot) (l : Look) : Reply × Workspace :=
  let kept {α : Type} (reply : α → Reply) : Option (α × Snapshot) → Reply × Workspace
    | some (v, s) => (reply v, w.setSnapshot id s)
    | none => (.stale, w)
  match l with
  | .text | .display => kept .text (s.readText? w.see)
  | .array => kept .units (s.readArray? w.see)
  | .segment => kept .segment (s.readSegment? w.see)
  | .freeze => kept (fun _ : Unit => .flag true) ((s.freeze? w.see).map fun s => ((), s))
  | .recycle =>
      match s.recycle? w.see with
      | some s => (.flag true, w.setSnapshot id s)
      | none => (.flag false, w)

/-- An access to a region. -/
def access (i : Nat) (r : Region) (a : Access) : Except Fault (Reply × Workspace) :=
  let stored : Option Region → Except Fault (Reply × Workspace)
    | some r => .ok (.done, { w with regions := w.regions.modify i fun _ => r })
    | none => .error .outOfRange
  match a with
  | .release => stored (some r.release)
  | .load j =>
      match r.load? j with
      | some u => .ok (.unit u, w)
      | none => .error .outOfRange
  | .store j u => stored (r.store? j u)
  | .storeSlice j us => stored (r.storeSlice? j us)
  | .fill lo hi u => stored (r.fill? lo hi u)
  | .copyTo lo hi out =>
      match r.copyTo? lo hi out with
      | some us => .ok (.units us, w)
      | none => .error .outOfRange
  | .copyFrom j source lo hi => do
      let (k, o) ← w.region source
      stored (if k = i then r.copyWithin? j lo hi else r.copyFrom? j o lo hi)

/-- Adds a builder under a name. -/
def addNamed (name : String) (b : Builder) : BuilderId × Workspace :=
  let (id, w) := w.addBuilder b
  (id, w.nameBuilder name id)

/-- Adds a snapshot under a name. -/
def addSnapshotNamed (name : String) (s : Snapshot) : Workspace :=
  let (id, w) := w.addSnapshot s
  w.nameSnapshot name id

/-- Adds a region under a name. -/
def addRegion (name : String) (r : Region) : Workspace :=
  { w with regions := w.regions.push r, regionNames := w.regionNames.set name w.regions.size }

/-- Runs one step. -/
def step (s : Step) : Except Fault (Reply × Workspace) :=
  match s with
  | .newBuilder b o => .ok (.done, (w.addNamed b (.new o)).2)
  | .borrow b memory policy =>
      let (id, w) := w.addNamed b (.borrowing memory policy)
      .ok (.done, { w with borrowers := w.borrowers.set b id })
  | .dropBuilder b => do
      let id ← w.builderId b
      .ok (.done, (w.unnameBuilder b).disposeBuilder id)
  | .edit b e => do
      let (id, t) ← w.builder b
      w.edit id t e
  | .snap b keep => do
      let (id, t) ← w.builder b
      let (sid, w) := w.takeSnapshot id t
      .ok (.done, w.nameSnapshot keep sid)
  | .ofUnits s us => .ok (.done, w.addSnapshotNamed s (.ofUnits us))
  | .ofText s t => .ok (.done, w.addSnapshotNamed s (.ofText t))
  | .ofSegment s us start length =>
      match Segment.of? us start length with
      | some seg => .ok (.done, w.addSnapshotNamed s (.ofSegment seg))
      | none => .error (.badSegment start length us.length)
  | .clone s source => do
      let (id, _) ← w.snapshot source
      .ok (.done, w.nameSnapshot s id)
  | .dropSnapshot s => do
      let _ ← w.snapshot s
      .ok (.done, { w with snapshotNames := w.snapshotNames.erase s })
  | .look s l => do
      let (id, snapshot) ← w.snapshot s
      .ok (w.look id snapshot l)
  | .newPool p o =>
      let idle := match w.poolNames.get? p with
        | some old => old.idle
        | none => []
      .ok (.done, idle.foldl (fun w id => w.disposeBuilder id) (w.setPool p (.new o)))
  | .take p b => do
      let pool ← w.pool p
      let (id, w) := w.takeFrom p pool
      .ok (.done, w.nameBuilder b id)
  | .giveBack p b => do
      let pool ← w.pool p
      let id ← w.builderId b
      .ok (.done, (w.unnameBuilder b).giveBackTo p pool id)
  | .rent p t keep => do
      let pool ← w.pool p
      let (id, w) := w.takeFrom p pool
      let pool ← w.pool p
      match w.builderAt? id with
      | none => .error (.unknownName p)
      | some b =>
          let (r, b) := b.appendText t
          let w := w.setBuilder id b
          let w := match keep with
            | some name => w.nameBuilder name id
            | none => w.giveBackTo p pool id
          .ok (.rented (.ofAppend r) b pool.size, w)
  | .allocate g capacity => .ok (.done, w.addRegion g (.allocate capacity))
  | .adopt g memory =>
      .ok (.done, { w.addRegion g (.adopt memory) with adopted := w.adopted.set g w.regions.size })
  | .access g a => do
      let (i, r) ← w.region g
      w.access i r a

/-- Runs steps one after another; a refused step changes nothing. -/
def run (w : Workspace) (steps : List Step) : Workspace :=
  steps.foldl (fun w s => match w.step s with
    | .ok (_, w) => w
    | .error _ => w) w

end Workspace
end ValueText
