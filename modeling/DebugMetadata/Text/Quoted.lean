import DebugMetadata.Text.CodePoint
import DebugMetadata.Text.Digits
import DebugMetadata.Text.Printable

/-!
# Quoted text

Text and bytes as they are shown in messages: between quotes, on one line, with
escapes for what cannot be printed. Single quotes are used unless the text holds
one and holds no double quote.
-/

namespace DebugMetadata

namespace Quoted

open CodePoint (char surrogate)

/-- The quote for a text, told from what the text holds. -/
def quoteFor (cs : List CodePoint) : Char :=
  if cs.contains (char '\'') && !cs.contains (char '"') then '"' else '\''

def shortEscape? (quote : Char) (c : Char) : Option (List Char) :=
  if c = quote || c = '\\' then some ['\\', c]
  else if c = '\t' then some ['\\', 't']
  else if c = '\n' then some ['\\', 'n']
  else if c = '\r' then some ['\\', 'r']
  else none

/-- The escape of a character by its number, as short as the number allows. -/
def numberEscape (n : Nat) : List Char :=
  if n < 0x100 then '\\' :: 'x' :: Hex.digits 2 n
  else if n < 0x10000 then '\\' :: 'u' :: Hex.digits 4 n
  else '\\' :: 'U' :: Hex.digits 8 n

/-- How a code point is shown between quotes: as it is if it is in `plain`. -/
def shown (plain : Char → Bool) (quote : Char) : CodePoint → List Char
  | char c => (shortEscape? quote c).getD (if plain c then [c] else numberEscape c.toNat)
  | surrogate n => numberEscape (surrogate n).toNat

def encode (plain : Char → Bool) (cs : List CodePoint) : String :=
  let quote := quoteFor cs
  String.ofList (quote :: cs.flatMap (shown plain quote) ++ [quote])

def text (s : Text) : String := encode Printable.isPrintable s.toList

def isPlainByte (c : Char) : Bool := 0x20 ≤ c.toNat && c.toNat < 0x7F

/-- Bytes in quotes, after a `b`. Only ASCII is shown as it is. -/
def bytes (bs : List UInt8) : String :=
  "b" ++ encode isPlainByte (bs.map fun b => char (Char.ofNat b.toNat))

end Quoted

end DebugMetadata
