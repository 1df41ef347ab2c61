/-
  ValueText.Types.Host — the types that values of the host program have.

  Values come from a host program.  Each has one of the host's types: a type
  that this library knows, an optional or an array of one, or any other type,
  which is known by its path alone.

  The host spells its types as paths, segments joined by two colons, generic
  arguments in angle brackets, interfaces behind the word `dyn`.  `TypePath.split`
  takes such a path apart.
-/
import ValueText.Text.Numeral
import ValueText.Text.Split

namespace ValueText

/-! ## §1. Types. -/

/-- A type of the host program. -/
inductive HostType
  | bool
  | char
  | int (w : IntWidth)
  | float32
  | float64
  /-- Text that belongs to somebody else. -/
  | text
  /-- Text that is a value of its own. -/
  | string
  | duration
  | time
  | uuid
  | typeInfo
  | method
  /-- The interface of everything. -/
  | object
  /-- The interface of everything with a text of its own. -/
  | display
  | option (t : HostType)
  | array (t : HostType)
  /-- A type known by its path. -/
  | other (path : String)
  deriving DecidableEq, Repr

/-- How the host spells the types that are not words of its language. -/
structure HostSpelling where
  string : String
  duration : String
  time : String
  uuid : String
  typeInfo : String
  method : String
  object : String
  display : String
  option : String
  array : String

/-- The host's word for an integer width. -/
def IntWidth.word : IntWidth → String
  | .i8 => "i8"
  | .u8 => "u8"
  | .i16 => "i16"
  | .u16 => "u16"
  | .i32 => "i32"
  | .u32 => "u32"
  | .i64 => "i64"
  | .u64 => "u64"
  | .isize => "isize"
  | .usize => "usize"

/-- The path of a type. -/
def HostType.path (h : HostSpelling) : HostType → String
  | .bool => "bool"
  | .char => "char"
  | .int w => w.word
  | .float32 => "f32"
  | .float64 => "f64"
  | .text => "str"
  | .string => h.string
  | .duration => h.duration
  | .time => h.time
  | .uuid => h.uuid
  | .typeInfo => h.typeInfo
  | .method => h.method
  | .object => h.object
  | .display => h.display
  | .option t => h.option ++ "<" ++ t.path h ++ ">"
  | .array t => h.array ++ "<" ++ t.path h ++ ">"
  | .other p => p

/-- The types whose paths stand in no brackets. -/
def HostType.plain : List HostType :=
  [.bool, .char, .int .i8, .int .u8, .int .i16, .int .u16, .int .i32, .int .u32, .int .i64,
   .int .u64, .int .isize, .int .usize, .float32, .float64, .text, .string, .duration, .time,
   .uuid, .typeInfo, .method, .object, .display]

/-- The text between a name followed by an opening bracket and a closing bracket
at the end. -/
def bracketed? (name : String) (cs : List Char) : Option (List Char) :=
  let opening := name.toList ++ ['<']
  if opening.isPrefixOf cs then
    match (cs.drop opening.length).reverse with
    | '>' :: inner => some inner.reverse
    | _ => none
  else none

theorem bracketed?_length_lt {name : String} {cs inner : List Char}
    (h : bracketed? name cs = some inner) : inner.length < cs.length := by
  unfold bracketed? at h
  simp only at h
  split at h
  · split at h
    · next r hr =>
        simp only [Option.some.injEq] at h
        subst h
        have hl := congrArg List.length hr
        simp only [List.length_reverse, List.length_drop, List.length_cons] at hl
        simp only [List.length_reverse]
        omega
    · simp at h
  · simp at h

/-- The type without brackets that has a path. -/
def HostType.plainOfPath? (h : HostSpelling) (cs : List Char) : Option HostType :=
  HostType.plain.find? fun t => (t.path h).toList = cs

/-- The type with a path. -/
def HostType.ofPath (h : HostSpelling) (cs : List Char) : HostType :=
  match _option : bracketed? h.option cs with
  | some inner => .option (HostType.ofPath h inner)
  | none =>
      match _array : bracketed? h.array cs with
      | some inner => .array (HostType.ofPath h inner)
      | none => (HostType.plainOfPath? h cs).getD (.other (String.ofList cs))
termination_by cs.length
decreasing_by
  · exact bracketed?_length_lt _option
  · exact bracketed?_length_lt _array

/-! ## §2. Paths. -/

/-- A path taken apart. -/
structure TypePath where
  /-- The segments before the last one, joined by dots. -/
  space : Option String
  /-- The last segment with its generic arguments. -/
  name : String
  /-- Whether the path is one of an interface. -/
  isInterface : Bool
  deriving DecidableEq, Repr

namespace TypePath

/-- Cuts an interface path at its first bound. -/
def dropBounds (cs : List Char) : List Char :=
  match Split.cutFirst [' ', '+', ' '] cs with
  | some (first, _) => first
  | none => cs

/-- Takes the part before the generic arguments apart at its last separator. -/
def splitPlain (cs : List Char) (isInterface : Bool) : TypePath :=
  let stem := cs.takeWhile (· ≠ '<')
  match Split.cutLast [':', ':'] stem with
  | some (space, name) =>
      ⟨some (String.ofList (Split.replaceColons '.' space)),
       String.ofList (name ++ cs.drop stem.length), isInterface⟩
  | none => ⟨none, String.ofList cs, isInterface⟩

/-- Takes a path apart.  Blanks around it do not count. -/
def split (path : String) : TypePath :=
  match Split.trim path.toList with
  | 'd' :: 'y' :: 'n' :: ' ' :: rest => splitPlain (dropBounds rest) true
  | cs => splitPlain cs false

end TypePath
end ValueText
