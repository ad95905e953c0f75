import DebugMetadata.Bytes.LittleEndian
import DebugMetadata.Error
import DebugMetadata.Separated

/-!
# Payloads of records

Hoisted local scopes are a flat list of offsets and lengths, signed numbers of 32
bits. The end of a scope is their exact sum, which may need more bits.

Tuple element names are in UTF-8, with a zero byte after each. An empty name
stands for an element without one.
-/

namespace DebugMetadata

/-- The half-open range of offsets at which a hoisted variable is in scope. -/
structure HoistedScope where
  start : Int
  stop : Int
  deriving DecidableEq, Repr

namespace HoistedScope

def size : Nat := 8

/-- The scopes of a payload, as long as they are complete, behind those of
`found`, which are in reverse. -/
def scan (found : List HoistedScope) : List UInt8 → List HoistedScope
  | a :: b :: c :: d :: e :: f :: g :: h :: rest =>
    let start := LittleEndian.signed [a, b, c, d]
    scan (⟨start, start + LittleEndian.signed [e, f, g, h]⟩ :: found) rest
  | _ => found.reverse

/-- The scopes of a payload, which has to hold a whole number of them. -/
def decode (payload : List UInt8) : Except Error (List HoistedScope) :=
  if payload.length % size = 0 then .ok (scan [] payload)
  else .error (.oddScopesSize payload.length)

def encode (scopes : List HoistedScope) : List UInt8 :=
  scopes.flatMap fun s =>
    LittleEndian.signedBytes 4 s.start ++ LittleEndian.signedBytes 4 (s.stop - s.start)

end HoistedScope

namespace TupleNames

def element (name : List UInt8) : Except Error (Option String) :=
  match Utf8.decode name with
  | .error _ => .error (.badName name)
  | .ok s => .ok (if s.isEmpty then none else some s)

def decode (payload : List UInt8) : Except Error (List (Option String)) :=
  if payload.isEmpty then .ok []
  else if payload.getLast? ≠ some 0 then .error .unterminatedName
  else (Separated.parts 0 payload.dropLast).mapM element

def encode (names : List (Option String)) : List UInt8 :=
  names.flatMap fun name => (name.map Utf8.encode).getD [] ++ [0]

end TupleNames

end DebugMetadata
