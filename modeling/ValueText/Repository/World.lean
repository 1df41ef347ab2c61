/-
  ValueText.Repository.World — repositories over one catalogue.

  Repositories are numbered and come and go; formatters that were taken from one
  may be used after it is gone.  All of them share the catalogue and the texts
  made for values of enumerations.
-/
import ValueText.Repository.Writing

namespace ValueText

/-- Repositories over one catalogue. -/
structure World where
  catalog : Catalog
  /-- The repositories by number; `none` in the place of one that is gone. -/
  repositories : Array (Option Repository) := #[]
  names : EnumNames := {}

namespace World

variable (w : World)

/-- The repository with a number, unless it is gone. -/
def repository? (i : Nat) : Option Repository := (w.repositories[i]?).join

/-- Changes the repository with a number. -/
def setRepository (i : Nat) (r : Option Repository) : World :=
  { w with repositories := w.repositories.modify i fun _ => r }

/-- Adds a repository for a role. -/
def openRepository (roleName : String) (role : HostType) (pool : PoolOptions) : Nat × World :=
  let (r, c) := Repository.new roleName role w.catalog pool
  (w.repositories.size, { w with catalog := c, repositories := w.repositories.push (some r) })

/-- Lets a repository go. -/
def closeRepository (i : Nat) : World := w.setRepository i none

/-- What the factories of the repositories have done since this was last asked. -/
def drain : List (Notice Handle Slot) × World :=
  (w.repositories.toList.flatMap fun r => (r.map (·.notices)).getD [],
    { w with repositories := w.repositories.map fun r => r.map fun r => { r with notices := [] } })

/-- Does something to a repository and the catalogue. -/
def update {α : Type} (i : Nat) (f : Repository → Catalog → α × Repository × Catalog) :
    Option (α × World) :=
  (w.repository? i).map fun r =>
    let (a, r, c) := f r w.catalog
    (a, { w with catalog := c }.setRepository i (some r))

/-- A formatter of a repository for a host type. -/
def get (i : Nat) (t : HostType) : Option (StaticFormatter × World) :=
  w.update i fun r c => r.get c t

/-- A formatter of a repository for values of a type. -/
def getRuntime (i : Nat) (d : Descriptor) : Option (Handle × World) :=
  w.update i fun r c =>
    let (h, r) := r.getRuntime d
    (h, r, c)

/-- Does the work of a formatter that comes from a repository. -/
def write (i : Nat) (work : DeskWork Unit) (b : Builder) : Except Overflow Unit × Builder × World :=
  let (answer, d) := work ⟨b, w.catalog, w.repository? i, w.names⟩
  (answer, d.builder, { w with catalog := d.catalog, names := d.names }.setRepository i d.home)

/-- The text of a value that is seen as a host type, or of null. -/
def format (i : Nat) (t : HostType) (v : Option View) : Option (Except Overflow String × World) :=
  (w.repository? i).map fun r =>
    let f := r.format w.catalog w.names t v
    (f.answer, { w with catalog := f.catalog, names := f.names }.setRepository i (some f.repository))

end World
end ValueText
