import DebugMetadata.Text.CodePoint
import DebugMetadata.Text.Digits
import DebugMetadata.Text.Utf8

/-!
# Percent escapes

A percent sign and two hexadecimal digits stand for a byte. The bytes of escapes
and of the ASCII characters next to them are read as UTF-8 together, so that the
escapes of one character can stand in a row.
-/

namespace DebugMetadata

namespace Uri

open CodePoint (char)

inductive Part where
  | byte (b : UInt8)
  | kept (c : CodePoint)
  deriving DecidableEq, Repr

def escapedByte? : List CodePoint → Option UInt8
  | char a :: char b :: _ => do
    let high ← Hex.value? a
    let low ← Hex.value? b
    some (UInt8.ofNat (16 * high + low))
  | _ => none

/-- The parts of a text, after leaving out the first `skip` code points, put
behind those of `found`, which are in reverse. -/
def scanParts (found : List Part) : (skip : Nat) → List CodePoint → List Part
  | _, [] => found.reverse
  | skip + 1, _ :: s => scanParts found skip s
  | 0, c :: s =>
    if c = char '%' then
      match escapedByte? s with
      | some b => scanParts (.byte b :: found) 2 s
      -- a percent sign without two digits stands for itself
      | none => scanParts (.byte 0x25 :: found) 0 s
    else if c.toNat < 0x80 then scanParts (.byte (UInt8.ofNat c.toNat) :: found) 0 s
    else scanParts (.kept c :: found) 0 s

def extendDecoded (part : Part) (rest : List UInt8 × List CodePoint) :
    List UInt8 × List CodePoint :=
  match part with
  | .byte b => (b :: rest.1, rest.2)
  | .kept c => ([], c :: (Utf8.decodeLossy rest.1).toList.map char ++ rest.2)

def unescape (s : List CodePoint) : List CodePoint :=
  let (bytes, rest) := (scanParts [] 0 s).foldr extendDecoded ([], [])
  (Utf8.decodeLossy bytes).toList.map char ++ rest

end Uri

end DebugMetadata
