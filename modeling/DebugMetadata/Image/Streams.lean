import DebugMetadata.Bytes.Bits
import DebugMetadata.Bytes.Block
import DebugMetadata.Table.Row

/-!
# The two required streams

`#Pdb` holds the row counts of the tables that the file refers to, `#~` those of
the tables that it has, and their rows. Either stream tells by a mask which
tables it counts, and has one number for each set bit.
-/

namespace DebugMetadata

abbrev RowCounts := List (Nat × Nat)

namespace RowCounts

def read? (stream : Block) : (position : Nat) → (tables : List Nat) → Option RowCounts
  | _, [] => some []
  | position, t :: tables => do
    let count ← stream.number? position 4
    let counts ← read? stream (position + 4) tables
    some ((t, count) :: counts)

end RowCounts

structure DebugStream where
  id : List UInt8
  entryPoint : Nat
  referenced : Nat
  counts : RowCounts
  deriving DecidableEq, Repr

namespace DebugStream

def countsOffset : Nat := 32

def read? (stream : Block) : Option DebugStream := do
  let id ← stream.read? 0 20
  let entryPoint ← stream.number? 20 4
  let referenced ← stream.number? 24 8
  let counts ← RowCounts.read? stream countsOffset (Bits.positions referenced)
  some ⟨id, entryPoint, referenced, counts⟩

end DebugStream

/-- What comes before the rows in `#~`. -/
structure TablesHeader where
  reserved : Nat
  majorVersion : Nat
  minorVersion : Nat
  heapSizes : Nat
  reserved2 : Nat
  valid : Nat
  sorted : Nat
  counts : RowCounts
  deriving DecidableEq, Repr

namespace TablesHeader

def countsOffset : Nat := 24

/-- Whether a word of extra data follows the row counts. -/
def hasExtra (heapSizes : Nat) : Bool := heapSizes.testBit Sizes.extraBit

def size (h : TablesHeader) : Nat :=
  countsOffset + 4 * h.counts.length + if hasExtra h.heapSizes then 4 else 0

def read? (stream : Block) : Option TablesHeader := do
  let reserved ← stream.number? 0 4
  let majorVersion ← stream.number? 4 1
  let minorVersion ← stream.number? 5 1
  let heapSizes ← stream.number? 6 1
  let reserved2 ← stream.number? 7 1
  let valid ← stream.number? 8 8
  let sorted ← stream.number? 16 8
  let counts ← RowCounts.read? stream countsOffset (Bits.positions valid)
  let header : TablesHeader :=
    ⟨reserved, majorVersion, minorVersion, heapSizes, reserved2, valid, sorted, counts⟩
  if hasExtra heapSizes then
    let _ ← stream.number? (header.size - 4) 4
    some header
  else some header

end TablesHeader

end DebugMetadata
