import DebugMetadata.Decimal.Shortest
import DebugMetadata.Json.Basic
import DebugMetadata.Keyed
import DebugMetadata.Text.Quoted

/-!
# Showing JSON values

The text of a value in a message. An object shows each key once, with the last
of its values.
-/

namespace DebugMetadata

namespace Json

/-- Numbers are shown with an exponent of two digits below a ten-thousandth and
from ten to the sixteenth up. -/
def numberLayout : Shortest.Layout := ⟨-4, 16, 2⟩

def signed (negative : Bool) (size : Magnitude) : String :=
  (if negative then "-" else "") ++ Shortest.text numberLayout size

mutual

def Value.display : Value → String
  | .null => "None"
  | .bool b => if b then "True" else "False"
  | .integer n => toString n
  | .decimal d => signed d.negative (Binary64.ofDecimal d)
  | .nan => "nan"
  | .infinity negative => signed negative .infinite
  | .string s => Quoted.text s
  | .array vs => "[" ++ ", ".intercalate (displayItems [] vs) ++ "]"
  | .object ms =>
    let shown :=
      (Keyed.effective (displayMembers [] ms)).map fun (k, v) => Quoted.text k ++ ": " ++ v
    "\x7b" ++ ", ".intercalate shown ++ "\x7d"

/-- The texts of values, behind those of `shown`, which are in reverse. -/
def displayItems (shown : List String) : List Value → List String
  | [] => shown.reverse
  | v :: vs => displayItems (v.display :: shown) vs

/-- The keys and the texts of members, behind those of `shown`, which are in
reverse. -/
def displayMembers (shown : List (Text × String)) : List (Text × Value) → List (Text × String)
  | [] => shown.reverse
  | (k, v) :: ms => displayMembers ((k, v.display) :: shown) ms

end

end Json

end DebugMetadata
