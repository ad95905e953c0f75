/-!
# UTF-8

Bytes are cut into pieces: well-formed characters and broken sequences. A
broken sequence is the longest start of a character that the bytes hold, so a
byte that cannot continue a character is looked at again as the start of the
next piece. `decode` gives the text or the first broken sequence, `decodeLossy`
puts U+FFFD in the place of each.
-/

namespace DebugMetadata

namespace Utf8

inductive Reason where
  | invalidStart
  | invalidContinuation
  | unexpectedEnd
  deriving DecidableEq, Repr

/-- A broken sequence: its first byte, the position of that byte and how many
bytes belong to it. -/
structure Fault where
  reason : Reason
  first : UInt8
  start : Nat
  size : Nat
  deriving DecidableEq, Repr

inductive Piece where
  | char (c : Char)
  | broken (reason : Reason) (first : UInt8) (size : Nat)
  deriving DecidableEq, Repr

def Piece.size : Piece → Nat
  | .char c => c.utf8Size
  | .broken _ _ size => size

/-- What a first byte says about the rest of its character: the bits of value it
holds, the range of the second byte and how many bytes are still to come. -/
structure Lead where
  bits : Nat
  low : UInt8
  high : UInt8
  more : Nat
  deriving DecidableEq, Repr

/-- Leaves out the first bytes of overlong forms, of surrogates and of numbers
beyond U+10FFFF, or narrows their second byte. -/
def lead? (b : UInt8) : Option Lead :=
  let n := b.toNat
  if b < 0x80 then some ⟨n, 0x80, 0xBF, 0⟩
  else if b < 0xC2 then none
  else if b < 0xE0 then some ⟨n - 0xC0, 0x80, 0xBF, 1⟩
  else if b < 0xF0 then
    some ⟨n - 0xE0, if b = 0xE0 then 0xA0 else 0x80, if b = 0xED then 0x9F else 0xBF, 2⟩
  else if b < 0xF5 then
    some ⟨n - 0xF0, if b = 0xF0 then 0x90 else 0x80, if b = 0xF4 then 0x8F else 0xBF, 3⟩
  else none

/-- The piece that began with `first` and has `taken` bytes so far, which hold
the value `bits`; `more` bytes are still to come, the next one between `low` and
`high`. -/
def continued (first : UInt8) (low high : UInt8) :
    (more bits taken : Nat) → List UInt8 → Piece
  | 0, bits, _, _ => .char (Char.ofNat bits)
  | _ + 1, _, taken, [] => .broken .unexpectedEnd first taken
  | more + 1, bits, taken, b :: bs =>
    if low ≤ b ∧ b ≤ high then
      -- only the second byte has a range of its own
      continued first 0x80 0xBF more (bits * 64 + (b.toNat - 0x80)) (taken + 1) bs
    else .broken .invalidContinuation first taken

def pieceAt (b : UInt8) (bs : List UInt8) : Piece :=
  match lead? b with
  | none => .broken .invalidStart b 1
  | some lead => continued b lead.low lead.high lead.more lead.bits 1 bs

/-- The pieces of a list of bytes, after leaving out the first `skip` bytes, put
behind the pieces of `found`, which are in reverse. -/
def scan (found : List Piece) : (skip : Nat) → List UInt8 → List Piece
  | _, [] => found.reverse
  | skip + 1, _ :: bs => scan found skip bs
  | 0, b :: bs => scan (pieceAt b bs :: found) ((pieceAt b bs).size - 1) bs

def pieces (bs : List UInt8) : List Piece := scan [] 0 bs

/-- The characters of pieces of which the first is at `start`, put behind the
characters of `found`, which are in reverse; or the first fault. -/
def characters (found : List Char) : (start : Nat) → List Piece → Except Fault (List Char)
  | _, [] => .ok found.reverse
  | start, .char c :: ps => characters (c :: found) (start + c.utf8Size) ps
  | start, .broken reason first size :: _ => .error ⟨reason, first, start, size⟩

def decode (bs : List UInt8) : Except Fault String :=
  (characters [] 0 (pieces bs)).map String.ofList

def Piece.shown : Piece → Char
  | .char c => c
  | .broken .. => Char.ofNat 0xFFFD

/-- The text that is written by a list of bytes, with a replacement character
for every broken sequence. -/
def decodeLossy (bs : List UInt8) : String :=
  String.ofList ((pieces bs).map Piece.shown)

def encode (s : String) : List UInt8 := s.toList.flatMap String.utf8EncodeChar

/-! ## How a scan proceeds -/

theorem scan_found (found : List Piece) (skip : Nat) (bs : List UInt8) :
    scan found skip bs = found.reverse ++ scan [] skip bs := by
  induction bs generalizing found skip with
  | nil => cases skip <;> simp [scan]
  | cons b bs ih =>
    cases skip with
    | zero => rw [scan, ih, scan, ih [pieceAt b bs]]; simp
    | succ skip => rw [scan, ih, scan]

theorem scan_skip (found : List Piece) (skipped bs : List UInt8) :
    scan found skipped.length (skipped ++ bs) = scan found 0 bs := by
  induction skipped with
  | nil => rfl
  | cons a skipped ih => rw [List.length_cons, List.cons_append, scan, ih]

theorem pieces_cons {b : UInt8} {taken bs : List UInt8}
    (h : (pieceAt b (taken ++ bs)).size = taken.length + 1) :
    pieces (b :: (taken ++ bs)) = pieceAt b (taken ++ bs) :: pieces bs := by
  rw [pieces, scan, h, Nat.add_sub_cancel, scan_skip, scan_found, pieces]
  rfl

end Utf8

end DebugMetadata
