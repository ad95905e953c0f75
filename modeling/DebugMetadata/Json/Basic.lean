import DebugMetadata.Decimal.Binary64
import DebugMetadata.Text.CodePoint

/-!
# JSON values and faults of JSON texts

A value as it is written: numbers that are not integers keep their digits, and
an object keeps all its members, also those whose key comes up again.

A malformed text has one problem at one position. Two limits apply to texts that
are not malformed: integers may not be too long and values not too deep.
-/

namespace DebugMetadata

namespace Json

/-! ## Values -/

inductive Value where
  | null
  | bool (b : Bool)
  | integer (n : Int)
  | decimal (d : Decimal)
  | nan
  | infinity (negative : Bool)
  | string (s : Text)
  | array (items : List Value)
  | object (members : List (Text × Value))
  deriving Repr

/-! ## Faults -/

inductive Problem where
  | expectedValue
  | expectedName
  | expectedColon
  | expectedComma
  | unterminatedString
  | controlCharacter
  | badEscape
  | badUnicodeEscape
  | extraData
  | byteOrderMark
  deriving DecidableEq, Repr

/-- A position in a text: its offset in characters, its line and its column in
that line, both counted from one. -/
structure Position where
  offset : Nat
  line : Nat
  column : Nat
  deriving DecidableEq, Repr

/-- The position after the first `offset` characters of a text. -/
def Position.after (text : List Char) (offset : Nat) : Position :=
  let before := text.take offset
  ⟨offset, before.count '\n' + 1, (before.reverse.takeWhile (· != '\n')).length + 1⟩

inductive Error where
  | malformed (problem : Problem) (position : Position)
  | longInteger (digits : Nat)
  | tooDeep
  deriving DecidableEq, Repr

def integerLimit : Nat := 4300

namespace Problem

def message : Problem → String
  | expectedValue => "Expecting value"
  | expectedName => "Expecting property name enclosed in double quotes"
  | expectedColon => "Expecting ':' delimiter"
  | expectedComma => "Expecting ',' delimiter"
  | unterminatedString => "Unterminated string starting at"
  | controlCharacter => "Invalid control character at"
  | badEscape => "Invalid \\escape"
  | badUnicodeEscape => "Invalid \\uXXXX escape"
  | extraData => "Extra data"
  | byteOrderMark => "Unexpected UTF-8 BOM (decode using utf-8-sig)"

end Problem

namespace Error

def message : Error → String
  | malformed problem p =>
    problem.message ++ s!": line {p.line} column {p.column} (char {p.offset})"
  | longInteger digits =>
    s!"Exceeds the limit ({integerLimit} digits) for integer string conversion: value has " ++
      s!"{digits} digits; use sys.set_int_max_str_digits() to increase the limit"
  | tooDeep => "Nested too deep"

end Error

end Json

end DebugMetadata
