/-
  ValueText.Types.Description — values told apart in one line.

  A description shows which value is seen and as what: an object with its class
  and text, a view with the interface in front.  Class and interface paths are
  shortened by a function of the caller.
-/
import ValueText.Types.Value

namespace ValueText

mutual

/-- The description of a value. -/
def Value.describe (short : String → String) : Value → String
  | .bool b => Literal.ofBool b
  | .char c => c.toString
  | .int _ n => Numeral.ofInt n
  | .float32 bits => Numeral.hex 8 bits.toNat
  | .float64 bits => Numeral.hex 16 bits.toNat
  | .text s => s
  | .string s => s
  | .duration d => Numeral.ofNat d.seconds ++ "+" ++ Numeral.ofNat d.nanos
  | .time _ => "time"
  | .uuid n => Numeral.hex 32 n
  | .typeInfo d => d.fullName
  | .method m => m.text
  | .option _ none => "none"
  | .option _ (some v) => "some(" ++ v.describe short ++ ")"
  | .array _ vs => "[" ++ ",".intercalate (Value.describeAll short vs) ++ "]"
  | .object path own _ _ _ => short path ++ ":" ++ own
  | .enumerator path n => short path ++ ":" ++ Enumeration.numeral n

/-- The descriptions of several values. -/
def Value.describeAll (short : String → String) : List Value → List String
  | [] => []
  | v :: vs => v.describe short :: Value.describeAll short vs

end

/-- The description of a view. -/
def View.describe (short : String → String) : View → String
  | .plain v => v.describe short
  | .through .object _ => "object"
  | .through .display v =>
      match v.rendering?.map Rendering.result with
      | some (.ok s) => "display:" ++ s
      | _ => "display!"
  | .through (.other path) v => short path ++ "@" ++ v.describe short
  | .through _ v => v.describe short

end ValueText
