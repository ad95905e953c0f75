import DebugMetadata.Bytes.Block
import DebugMetadata.Bytes.Compressed
import DebugMetadata.Bytes.LittleEndian
import DebugMetadata.Error

/-!
# Heaps

Three streams hold what rows refer to by index: GUIDs by number from one on,
blobs and strings by position. A blob follows its length, a string ends with a
zero byte. Index zero stands for no GUID and for the empty blob.

A GUID is a number of 128 bits. It is stored as a number of 32 bits and two of 16
bits, each little-endian, and eight single bytes.
-/

namespace DebugMetadata

structure Guid where
  number : BitVec 128
  deriving DecidableEq, Repr

namespace Guid

def size : Nat := 16

/-- Turns the stored bytes into those of the number, most significant first, or
back. -/
def swapped (bs : List UInt8) : List UInt8 :=
  (bs.take 4).reverse ++ ((bs.drop 4).take 2).reverse ++ ((bs.drop 6).take 2).reverse ++ bs.drop 8

def ofBytes (bs : List UInt8) : Guid :=
  ⟨BitVec.ofNat 128 (LittleEndian.value (swapped bs).reverse)⟩

def bytes (g : Guid) : List UInt8 := swapped (LittleEndian.bytes size g.number.toNat).reverse

def text (g : Guid) : String :=
  let ds := Hex.digits 32 g.number.toNat
  let group (start size : Nat) := (ds.drop start).take size
  String.ofList (['-'].intercalate [group 0 8, group 8 4, group 12 4, group 16 4, group 20 12])

end Guid

namespace Heap

def guid (heap : Block) (index : Nat) : Except Error (Option Guid) :=
  if index = 0 then .ok none
  else
    match heap.read? ((index - 1) * Guid.size) Guid.size with
    | some bs => .ok (some (Guid.ofBytes bs))
    | none => .error (.guidOutOfRange index)

def blobLength (heap : Block) (index : Nat) : Except Error (Nat × Nat) :=
  -- the length takes four bytes at most, and fewer may be left
  let front := (heap.slice index 4).toList
  match Compressed.read front with
  | .ok (length, rest) => .ok (length, index + (front.length - rest.length))
  | .error .endOfData => .error (.blobOutOfRange index)
  | .error (.badLead lead) => .error (.badLengthByte lead)

def blob (heap : Block) (index : Nat) : Except Error (List UInt8) :=
  if index = 0 then .ok []
  else
    match blobLength heap index with
    | .error e => .error e
    | .ok (length, start) =>
      match heap.read? start length with
      | some bs => .ok bs
      | none => .error (.blobTooLong index)

def string (heap : Block) (index : Nat) : Except Error String :=
  match heap.terminated? index with
  | none => .error (.badString index)
  | some bs =>
    match Utf8.decode bs with
    | .ok s => .ok s
    | .error _ => .error (.badString index)

/-- The first number that takes more than 64 bits with its sign. -/
def seekBound : Nat := 0x8000000000000000

/-- Whether a heap can be asked for a position. What stands for a missing heap
takes signed numbers of 64 bits only, a heap that is there takes any number. -/
def takes (isThere : Bool) (position : Int) : Bool :=
  isThere || decide (-seekBound ≤ position ∧ position < seekBound)

/-- An index that is given as any number, and stands for a position in the heap. -/
def index (isThere : Bool) (position i : Int) : Except Error Nat :=
  if takes isThere position then
    if i < 0 then .error (.negativePosition i) else .ok i.toNat
  else .error (.hugePosition position)

end Heap

end DebugMetadata
