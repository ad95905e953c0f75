import DebugMetadata.Bytes.Block
import DebugMetadata.Keyed
import DebugMetadata.Table.Handle

/-!
# Rows

The rows of a table have columns, and what a column holds tells how wide it is.
Indices take two bytes, or four when the file needs them: heaps say so in a byte
of flags, tables when they have 2¹⁶ rows, coded parents when one of their tables
has too many rows to leave room for the tag.

A table is a place in the tables stream, a number of rows and the widths of their
columns. The stream may end before the rows do: then the rows that it holds in
full can still be read one by one, but not all of them together.
-/

namespace DebugMetadata

inductive Column where
  | name
  | hashAlgorithm
  | hash
  | language
  | document
  | sequencePoints
  | method
  | importScope
  | variableList
  | constantList
  | startOffset
  | length
  | attributes
  | index
  | signature
  | parent
  | imports
  | moveNextMethod
  | kickoffMethod
  | kind
  | value
  deriving DecidableEq, Repr

def Column.text : Column → String
  | name => "name"
  | hashAlgorithm => "hashAlgorithm"
  | hash => "hash"
  | language => "language"
  | document => "document"
  | sequencePoints => "sequencePoints"
  | method => "method"
  | importScope => "importScope"
  | variableList => "variableList"
  | constantList => "constantList"
  | startOffset => "startOffset"
  | length => "length"
  | attributes => "attributes"
  | index => "index"
  | signature => "signature"
  | parent => "parent"
  | imports => "imports"
  | moveNextMethod => "moveNextMethod"
  | kickoffMethod => "kickoffMethod"
  | kind => "kind"
  | value => "value"

inductive Content where
  | number16
  | number32
  | stringIndex
  | guidIndex
  | blobIndex
  | rowOf (t : Table)
  | parent
  deriving DecidableEq, Repr

def DebugTable.columns : DebugTable → List (Column × Content)
  | document =>
    [(.name, .blobIndex), (.hashAlgorithm, .guidIndex), (.hash, .blobIndex),
      (.language, .guidIndex)]
  | methodDebugInformation => [(.document, .rowOf .document), (.sequencePoints, .blobIndex)]
  | localScope =>
    [(.method, .rowOf .methodDef), (.importScope, .rowOf .importScope),
      (.variableList, .rowOf .localVariable), (.constantList, .rowOf .localConstant),
      (.startOffset, .number32), (.length, .number32)]
  | localVariable => [(.attributes, .number16), (.index, .number16), (.name, .stringIndex)]
  | localConstant => [(.name, .stringIndex), (.signature, .blobIndex)]
  | importScope => [(.parent, .rowOf .importScope), (.imports, .blobIndex)]
  | stateMachineMethod =>
    [(.moveNextMethod, .rowOf .methodDef), (.kickoffMethod, .rowOf .methodDef)]
  | customDebugInformation => [(.parent, .parent), (.kind, .guidIndex), (.value, .blobIndex)]

def Column.totalSize : List (Column × Nat) → Nat
  | [] => 0
  | (_, w) :: columns => w + totalSize columns

/-! ## Widths -/

/-- What the widths of a file depend on: its byte of heap flags and its row
counts. -/
structure Sizes where
  heaps : Nat
  rows : Nat → Nat

namespace Sizes

def stringBit : Nat := 0

def guidBit : Nat := 1

def blobBit : Nat := 2

/-- The number of the bit for a word of extra data after the row counts. -/
def extraBit : Nat := 6

/-- The width of a number that is narrow unless it has to be wide. -/
def narrowUnless (wide : Bool) : Nat := if wide then 4 else 2

def width (s : Sizes) : Content → Nat
  | .number16 => 2
  | .number32 => 4
  | .stringIndex => narrowUnless (s.heaps.testBit stringBit)
  | .guidIndex => narrowUnless (s.heaps.testBit guidBit)
  | .blobIndex => narrowUnless (s.heaps.testBit blobBit)
  | .rowOf t => narrowUnless (0x10000 ≤ s.rows t.number)
  | .parent => narrowUnless (Parent.tables.any fun t => 0x10000 / Parent.tagBound ≤ s.rows t.number)

def columns (s : Sizes) (t : DebugTable) : List (Column × Nat) :=
  t.columns.map fun (c, content) => (c, s.width content)

def rowSize (s : Sizes) (t : DebugTable) : Nat := Column.totalSize (s.columns t)

theorem narrowUnless_eq (wide : Bool) : narrowUnless wide = 2 ∨ narrowUnless wide = 4 := by
  cases wide with
  | false => exact .inl rfl
  | true => exact .inr rfl

theorem width_eq (s : Sizes) (c : Content) : s.width c = 2 ∨ s.width c = 4 := by
  cases c with
  | number16 => exact .inl rfl
  | number32 => exact .inr rfl
  | stringIndex => exact narrowUnless_eq _
  | guidIndex => exact narrowUnless_eq _
  | blobIndex => exact narrowUnless_eq _
  | rowOf t => exact narrowUnless_eq _
  | parent => exact narrowUnless_eq _

end Sizes

/-! ## Values -/

abbrev Row := List (Column × Nat)

namespace Row

def get (r : Row) (c : Column) : Nat := (Keyed.find? c r).getD 0

def decode : (columns : List (Column × Nat)) → List UInt8 → Row
  | [], _ => []
  | (c, w) :: columns, bs => (c, LittleEndian.value (bs.take w)) :: decode columns (bs.drop w)

def encode (columns : List (Column × Nat)) (values : List Nat) : List UInt8 :=
  (columns.zip values).flatMap fun ((_, w), n) => LittleEndian.bytes w n

end Row

structure TableView where
  stream : Block
  offset : Nat
  count : Nat
  columns : List (Column × Nat)

namespace TableView

def rowSize (v : TableView) : Nat := Column.totalSize v.columns

/-- Where a row starts. Rows are counted from one. -/
def position (v : TableView) (i : Nat) : Nat := v.offset + (i - 1) * v.rowSize

def rowAt (v : TableView) (i : Nat) : Row :=
  Row.decode v.columns (v.stream.slice (v.position i) v.rowSize).toList

def row (v : TableView) (i : Int) : Except Error Row :=
  if 1 ≤ i ∧ i ≤ v.count then
    match v.stream.read? (v.position i.toNat) v.rowSize with
    | some bs => .ok (Row.decode v.columns bs)
    | none => .error (.truncatedRow i)
  else .error (.rowOutOfRange i v.count)

def rows (v : TableView) : Except Error (List (Nat × Row)) :=
  if v.count = 0 then .ok []
  else if v.offset + v.count * v.rowSize ≤ v.stream.size then
    .ok ((List.range' 1 v.count).map fun i => (i, v.rowAt i))
  else .error (.truncatedTable v.count)

end TableView

end DebugMetadata
