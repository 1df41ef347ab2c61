/-
  ValueText.Repository.Basic — the formatters of one role.

  A repository resolves formatters through a factory and remembers what it found,
  in one table for types known beforehand and in one for the types of values met.
  Both tables subscribe to the factory, so that they follow later registrations.

  Main definitions:

    • `get`          the formatter for a host type;
    • `getRuntime`   the formatter for values of a type; it never leaves the work to
                     the formatter of the value's own type;
    • `withBuiltins` registers the formatters of the types of `System`.
-/
import ValueText.Buffer.Pool
import ValueText.Formatter.Basic

namespace ValueText

/-- Where a repository remembers an answer of its factory. -/
inductive Slot
  /-- The formatter for a host type. -/
  | static (t : HostType)
  /-- The formatter for values of a type. -/
  | runtime (d : Descriptor)

/-- The formatters of one role. -/
structure Repository where
  roleName : String
  factory : Factory Handle Slot
  statics : Table HostType StaticFormatter := .empty
  runtime : Table TypeKey Handle := .empty
  pool : Pool Builder
  /-- The number of registrations tried so far. -/
  registrations : Nat := 0
  /-- What the factory has done since somebody asked, in order. -/
  notices : List (Notice Handle Slot) := []

namespace Repository

/-! ## §1. Formatters for types without a registration. -/

/-- The formatter for values of a type without a registration. -/
def runtimeFallback (d : Descriptor) : Handle :=
  let f : GeneralFormatter := match d.facts.enumeration with
    | some shape => .enumeration shape
    | none => if d.facts.isAnonymous then .anonymous else .fallback
  ⟨.fallback d.key, d, .general f⟩

/-- The formatter for a host type without a registration. -/
def staticFallback (d : Descriptor) : Handle :=
  if d.isObject || d.isInterface || d.facts.isAbstract then ⟨.fallback d.key, d, .general .dynamic⟩
  else runtimeFallback d

/-- The formatter that values of a type get from a handle. -/
def runtimeHandle (d : Descriptor) (h : Handle) : Handle :=
  match h.kind with
  | .dynamic => runtimeFallback d
  | .normal | .default => h

/-! ## §2. Following the factory. -/

/-- Remembers what the factory delivers. -/
def accept (r : Repository) : Notice Handle Slot → Repository
  | .delivered (.static t) answer =>
      { r with statics := r.statics.set t (answer.extension.forType t) }
  | .delivered (.runtime d) answer =>
      { r with runtime := r.runtime.set d.key (runtimeHandle d answer.extension) }
  | .built .. | .failed _ | .fellBack _ => r

/-- Takes over a factory after it has done something. -/
def follow (r : Repository) (f : Factory Handle Slot) (ns : List (Notice Handle Slot)) : Repository :=
  ns.foldl accept { r with factory := f, notices := r.notices ++ ns }

/-! ## §3. Looking up. -/

/-- The formatter for values of a type. -/
def getRuntime (r : Repository) (d : Descriptor) : Handle × Repository :=
  match r.runtime.get? d.key with
  | some h => (h, r)
  | none =>
      let (answer, f, ns) := r.factory.resolve d (some (.runtime d)) runtimeFallback
      (runtimeHandle d answer.extension, r.follow f ns)

/-- The formatter for a host type. -/
def get (r : Repository) (c : Catalog) (t : HostType) : StaticFormatter × Repository × Catalog :=
  match r.statics.get? t with
  | some f => (f, r, c)
  | none =>
      let (d, c) := c.typeOf t
      let (answer, f, ns) := r.factory.resolve d (some (.static t)) staticFallback
      (answer.extension.forType t, r.follow f ns, c)

/-! ## §4. Registration. -/

/-- Registers a formatter for a type. -/
def registerHandle (r : Repository) (target valueType : Descriptor) (f : Formatter) :
    Except RegistrationError Unit × Repository :=
  let handle : Handle := ⟨.registered r.registrations, valueType, f⟩
  let r := { r with registrations := r.registrations + 1 }
  match r.factory.registerInstance target handle with
  | .error e => (.error e, r)
  | .ok (factory, ns) => (.ok (), r.follow factory ns)

/-- Registers a formatter that is written against a host type. -/
def register (r : Repository) (c : Catalog) (t : HostType) (f : TypedFormatter) :
    Except RegistrationError Unit × Repository × Catalog :=
  let (d, c) := c.typeOf t
  let (answer, r) := r.registerHandle d d (.direct t f)
  (answer, r, c)

/-- Registers a constructor for a generic definition. -/
def registerGeneric (r : Repository) (definition : Descriptor) (k : Constructor Handle) :
    Except RegistrationError Unit × Repository :=
  let number := r.registrations
  let marked : Constructor Handle :=
    { k with build := fun closed arguments =>
        (k.build closed arguments).map fun h =>
          { h with provenance := .constructed number closed.key } }
  let r := { r with registrations := number + 1 }
  match r.factory.registerGeneric definition marked with
  | .error e => (.error e, r)
  | .ok (factory, ns) => (.ok (), r.follow factory ns)

/-- Leaves values seen as a host type to the formatters of their own types. -/
def setDynamic (r : Repository) (c : Catalog) (t : HostType) :
    Except RegistrationError Unit × Repository × Catalog :=
  let (d, c) := c.typeOf t
  let (answer, r) := r.registerHandle d d (.general .dynamic)
  (answer, r, c)

/-! ## §5. What every repository begins with. -/

/-- Makes formatters for optional types. -/
def nullableConstructor : Constructor Handle :=
  { arity := 1
    build := fun closed arguments =>
      match arguments with
      | [inner] => .ok ⟨.fallback closed.key, closed, .general (.nullable inner)⟩
      | _ => .error ⟨closed.fullName, "expected exactly one type argument"⟩ }

/-- The formatters that are registered first. -/
def typedBuiltins : List (HostType × TypedFormatter) :=
  [(.text, .text true), (.string, .text true), (.char, .char true), (.bool, .bool),
   (.int .i8, .int), (.int .u8, .int), (.int .i16, .int), (.int .u16, .int), (.int .i32, .int),
   (.int .u32, .int), (.int .i64, .int), (.int .u64, .int), (.int .isize, .int),
   (.int .usize, .int), (.float32, .float), (.float64, .float), (.duration, .duration),
   (.time, .time), (.display, .display), (.typeInfo, .typeName {}), (.method, .method)]

/-- Registers a formatter whatever the answer. -/
def registering (p : Repository × Catalog) (b : HostType × TypedFormatter) : Repository × Catalog :=
  (p.1.register p.2 b.1 b.2).2

/-- Registers the formatters of the types of `System`. -/
def withBuiltins (r : Repository) (c : Catalog) : Repository × Catalog :=
  let (r, c) := typedBuiltins.foldl registering (r, c)
  let (_, r) := r.registerGeneric Catalog.nullableDefinition nullableConstructor
  registering (r, c) (.uuid, .uuid)

/-- A repository for a role. -/
def new (roleName : String) (role : HostType) (c : Catalog) (pool : PoolOptions) :
    Repository × Catalog :=
  let (d, c) := c.typeOf role
  withBuiltins { roleName := roleName, factory := { role := some d }, pool := .new pool } c

/-- Forgets all registrations but the first ones, and everything remembered. -/
def reset (r : Repository) (c : Catalog) : Repository × Catalog :=
  withBuiltins { r with factory := r.factory.clear, statics := .empty, runtime := .empty } c

/-- Reports failures of constructors from now on. -/
def reportFailures (r : Repository) : Repository :=
  { r with factory := { r.factory with reportsFailures := true } }

/-- The description of a repository. -/
def describe (r : Repository) : String :=
  "FormatterRepository \x7b role: " ++ Literal.quote r.roleName
    ++ ", static_types: " ++ Numeral.ofNat r.statics.size
    ++ ", runtime_types: " ++ Numeral.ofNat r.runtime.size ++ ", .. \x7d"

end Repository
end ValueText
