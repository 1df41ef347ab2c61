/-
  ValueText.Buffer.Pool — a queue of builders that wait for reuse.

  Builders are handed out in the order in which they came back.  A builder is
  taken back if it is alive, has the pool's capacity and policy, and the pool has
  room for it.
-/
import ValueText.Buffer.Builder

namespace ValueText

/-- How a pool makes builders, and how many it keeps. -/
structure PoolOptions where
  builder : BuilderOptions := {}
  limit : Nat := 32
  deriving DecidableEq, Repr

/-- A queue of idle builders, which are of type `β`. -/
structure Pool (β : Type) where
  options : PoolOptions
  idle : List β := []
  deriving Repr

namespace Pool

variable {β : Type}

/-- A pool without idle builders. -/
def new (o : PoolOptions) : Pool β := ⟨o, []⟩

/-- The number of idle builders. -/
def size (p : Pool β) : Nat := p.idle.length

/-- The builder that waits longest, if there is one. -/
def take (p : Pool β) : Option β × Pool β :=
  match p.idle with
  | [] => (none, p)
  | b :: rest => (some b, { p with idle := rest })

/-- Puts a builder at the end of the queue. -/
def put (p : Pool β) (b : β) : Pool β := { p with idle := p.idle ++ [b] }

/-- Whether a builder could have been made by the pool. -/
def suits (p : Pool β) (b : Builder) : Bool :=
  b.capacity = p.options.builder.capacity && b.policy = p.options.builder.policy

/-- Whether another builder fits into the queue. -/
def hasRoom (p : Pool β) : Bool := p.idle.length < p.options.limit

/-- What becomes of a builder that is returned. -/
inductive Fate
  | forgotten | unsuitable | crowded | kept
  deriving DecidableEq, Repr

/-- A disposed builder is forgotten.  One that does not suit is disposed, one
that finds no room is cleared and disposed; every other one is cleared and kept. -/
def fate (p : Pool β) (b : Builder) : Fate :=
  if b.disposed then .forgotten
  else if p.suits b then if p.hasRoom then .kept else .crowded
  else .unsuitable

/-- The description of a pool. -/
def describe (p : Pool β) : String :=
  "BuilderPool \x7b options: PoolOptions \x7b builder: " ++ p.options.builder.describe
    ++ ", max_instances: " ++ Numeral.ofNat p.options.limit ++ " \x7d, idle: "
    ++ Numeral.ofNat p.size ++ " \x7d"

end Pool
end ValueText
