/-
  ValueText.Types.Value — values of the host program and views of them.

  A value has exactly one type, `Value.type`.  A view shows a value as one of its
  supertypes: as a value of that type, or as the value with the type that it is
  seen through, an interface mostly.

  Main definitions:

    • `Value`, `View`        what formatters write;
    • `Value.rendering?`     the text a value has of its own, in pieces;
    • `Property.read?`       the value of a property, which is a part of its owner.
-/
import ValueText.Decimal.Positional
import ValueText.Text.Clock
import ValueText.Types.Method

namespace ValueText

/-! ## §1. Values. -/

/-- How a value's own rendering ends. -/
inductive RenderEnd
  | complete | failed | panicked
  deriving DecidableEq, Repr

/-- A value of the host program. -/
inductive Value
  | bool (v : Bool)
  | char (c : Char)
  | int (w : IntWidth) (n : Int)
  | float32 (bits : UInt32)
  | float64 (bits : UInt64)
  | text (s : String)
  | string (s : String)
  | duration (d : Duration)
  | time (t : Instant)
  | uuid (n : Nat)
  | typeInfo (d : Descriptor)
  | method (m : Method)
  | option (t : HostType) (v : Option Value)
  | array (t : HostType) (vs : List Value)
  /-- An object of a class: a text, a number that may be missing, and named
  members, each of which may be null. -/
  | object (path : String) (text : String) (number : Option Int) (ends : RenderEnd)
      (members : List (String × Option Value))
  /-- A value of an enumeration. -/
  | enumerator (path : String) (n : Int64)

namespace Value

/-- The exact type. -/
def type : Value → HostType
  | bool _ => .bool
  | char _ => .char
  | int w _ => .int w
  | float32 _ => .float32
  | float64 _ => .float64
  | text _ => .text
  | string _ => .string
  | duration _ => .duration
  | time _ => .time
  | uuid _ => .uuid
  | typeInfo _ => .typeInfo
  | method _ => .method
  | option t _ => .option t
  | array t _ => .array t
  | object path .. => .other path
  | enumerator path _ => .other path

/-- The text of a value that is one. -/
def asText? : Value → Option String
  | text s | string s => some s
  | _ => none

/-- The value inside an optional one of type `t`. -/
def unwrap? (t : HostType) : Value → Option Value
  | option t' v => if t' = t then v else none
  | _ => none

/-- The elements of an array of type `t`. -/
def elements? (t : HostType) : Value → Option (List Value)
  | array t' vs => if t' = t then some vs else none
  | _ => none

/-- The number of an enumeration value of type `t`. -/
def enumerator? (t : HostType) (v : Value) : Option Int64 :=
  match v with
  | enumerator _ n => if v.type = t then some n else none
  | _ => none

end Value

/-! ## §2. Own texts. -/

/-- A text that a value makes of itself, piece by piece. -/
structure Rendering where
  pieces : List String
  ends : RenderEnd := .complete
  deriving DecidableEq, Repr

namespace Rendering

/-- What stands in the place of a text that could not be made. -/
def failure : RenderEnd → Option String
  | .complete => none
  | .failed => some "core::fmt::Error"
  | .panicked => some "panic"

/-- The whole text, or what stands in its place. -/
def result (r : Rendering) : Except String String :=
  match failure r.ends with
  | some f => .error f
  | none => .ok (String.join r.pieces)

end Rendering

/-- The text that a value makes of itself, for values that can. -/
def Value.rendering? : Value → Option Rendering
  | .bool v => some ⟨[Literal.ofBool v], .complete⟩
  | .char c => some ⟨[c.toString], .complete⟩
  | .int _ n => some ⟨[Numeral.ofInt n], .complete⟩
  | .float32 bits => some ⟨Decimal.single.pieces bits.toNat, .complete⟩
  | .float64 bits => some ⟨Decimal.double.pieces bits.toNat, .complete⟩
  | .text s | .string s => some ⟨[s], .complete⟩
  | .uuid n => some ⟨[Clock.uuidText n], .complete⟩
  | .typeInfo d => some ⟨[d.fullName], .complete⟩
  | .method m => some ⟨[m.text], .complete⟩
  | .object _ own _ ends _ => some ⟨[own], ends⟩
  | .enumerator _ n => some ⟨["#", Enumeration.numeral n], .complete⟩
  | .duration _ | .time _ | .option .. | .array .. => none

/-! ## §3. Properties. -/

namespace Property

/-- The value of a property; `none` stands for null and for a value that is not
of the property's type. -/
def read? (p : Property) (v : Value) : Option Value :=
  if v.type = p.owner then
    match p.source, v with
    | .member name, .object _ _ _ _ members => (members.lookup name).join
    | .text, .object _ text _ _ _ => some (.string text)
    | .number, .object _ _ number _ _ => number.map (.int .i64)
    | .number, .enumerator _ n => some (.int .i64 n.toInt)
    | _, _ => none
  else none

end Property

/-! ## §4. Views. -/

/-- A value, or a value seen through another type, an interface mostly. -/
inductive View
  | plain (v : Value)
  | through (t : HostType) (v : Value)

namespace View

/-- The value behind a view. -/
def value : View → Value
  | plain v => v
  | through _ v => v

/-- The type that the view shows. -/
def type : View → HostType
  | plain v => v.type
  | through i _ => i

end View

/-- A value together with a type that it is taken to have. -/
structure TypedValue where
  value : Value
  type : Descriptor

end ValueText
