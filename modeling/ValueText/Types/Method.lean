/-
  ValueText.Types.Method — methods, their names and their signatures.

  Methods that have no name in the host's source carry a synthesised one.  There
  are two forms, angle brackets around the enclosing method followed by `b__`, and
  a path that ends in the marker of a closure.  `MethodName.classify` recognises
  both and finds the enclosing method.
-/
import ValueText.Table
import ValueText.Types.DisplayName

namespace ValueText

/-! ## §1. Names. -/

/-- Whether a method has a name of its own. -/
inductive MethodName
  | named
  /-- A name that was made up, with the enclosing method if it is known. -/
  | anonymous (enclosing : Option String)
  deriving DecidableEq, Repr

namespace MethodName

/-- The marker that stands for a closure. -/
def closureMarker : List Char := ['\x7b', '\x7b', 'c', 'l', 'o', 's', 'u', 'r', 'e', '\x7d', '\x7d']

/-- The method that a path leads to: its last segment that is no closure. -/
def enclosing? (path : List Char) : Option String :=
  match (Split.partsFromEnd [':', ':'] path).find? (· ≠ closureMarker) with
  | some (c :: cs) => some (String.ofList (c :: cs))
  | some [] | none => none

/-- Whether the text is on one line. -/
def oneLine (cs : List Char) : Bool := !cs.contains '\n'

/-- The path between angle brackets, if a lambda's suffix follows them. -/
def lambdaPath? : List Char → Option (List Char)
  | '<' :: cs =>
      match cs.dropWhile (· ≠ '>') with
      | '>' :: 'b' :: '_' :: '_' :: rest =>
          if oneLine rest then some (cs.takeWhile (· ≠ '>')) else none
      | _ => none
  | _ => none

/-- The path in front of the first closure marker that stands behind a
separator; the inner `none` is for a marker at the beginning. -/
def closurePath? (cs : List Char) : Option (Option (List Char)) :=
  if oneLine cs then
    match Split.cutFirst (':' :: ':' :: closureMarker) cs with
    | some (path, _) => some (some path)
    | none => if closureMarker.isPrefixOf cs then some none else none
  else none

/-- The class of a method name. -/
def classify (name : String) : MethodName :=
  match lambdaPath? name.toList with
  | some path => .anonymous (enclosing? path)
  | none =>
      match closurePath? name.toList with
      | some path => .anonymous (path.bind enclosing?)
      | none => .named

end MethodName

/-! ## §2. Methods. -/

/-- What kind of method it is. -/
inductive MethodKind
  | method | constructor | staticConstructor
  deriving DecidableEq, Repr

/-- The word for a kind of method. -/
def MethodKind.word : MethodKind → String
  | .method => "Method"
  | .constructor => "Constructor"
  | .staticConstructor => "StaticConstructor"

/-- A method of the host program. -/
structure Method where
  declaring : Option Descriptor
  name : String
  kind : MethodKind := .method
  arguments : List Descriptor := []
  parameters : List Descriptor := []

namespace Method

/-- A constructor. -/
def ctor (on : Descriptor) : Method := { declaring := some on, name := ".ctor", kind := .constructor }

/-- A static constructor. -/
def staticCtor (on : Descriptor) : Method :=
  { declaring := some on, name := ".cctor", kind := .staticConstructor }

/-- The plain text of a method. -/
def text (m : Method) : String :=
  (match m.declaring with
    | some d => d.fullName ++ "::"
    | none => "")
    ++ m.name
    ++ (if m.arguments.isEmpty then ""
        else "[" ++ ",".intercalate (m.arguments.map (·.fullName)) ++ "]")
    ++ "(" ++ ", ".intercalate (m.parameters.map (·.fullName)) ++ ")"

/-- The display names of types, separated by commas. -/
def typeList (ds : List Descriptor) : String := ", ".intercalate (ds.map (({} : NameStyle).render))

/-- The name in a signature, given its class. -/
def signatureName (m : Method) (c : MethodName) : String :=
  match c with
  | .anonymous (some e) => e ++ ".Anonymous"
  | .anonymous none => "Anonymous"
  | .named =>
      if m.arguments.isEmpty then m.name else m.name ++ "<" ++ typeList m.arguments ++ ">"

/-- The signature of a method, given how its name is classified. -/
def signatureBy (m : Method) (classify : String → MethodName) : String :=
  let on := match m.declaring with
    | some d => ({} : NameStyle).render d ++ "."
    | none => ""
  let parameters := "(" ++ typeList m.parameters ++ ")"
  match m.kind with
  | .staticConstructor => on ++ "StaticConstructor()"
  | .constructor => on ++ "new" ++ parameters
  | .method => on ++ m.signatureName (classify m.name) ++ parameters

/-- The signature of a method. -/
def signature (m : Method) : String := m.signatureBy MethodName.classify

end Method

/-! ## §3. Remembering classes. -/

/-- The classes of the names met so far. -/
structure MethodNames where
  known : Table String MethodName := .empty

namespace MethodNames

/-- The class of a name, looked up or found and kept. -/
def classify (ns : MethodNames) (name : String) : MethodName × MethodNames :=
  match ns.known.get? name with
  | some c => (c, ns)
  | none =>
      let c := MethodName.classify name
      (c, ⟨ns.known.set name c⟩)

/-- The signature of a method; the class of its name is kept. -/
def signature (ns : MethodNames) (m : Method) : String × MethodNames :=
  match m.kind with
  | .method =>
      let (c, ns) := ns.classify m.name
      (m.signatureBy fun _ => c, ns)
  | .constructor | .staticConstructor => (m.signature, ns)

/-- The description of the memory. -/
def describe (ns : MethodNames) : String :=
  "MethodFormatter \x7b cached_names: " ++ Numeral.ofNat ns.known.size ++ " \x7d"

end MethodNames
end ValueText
