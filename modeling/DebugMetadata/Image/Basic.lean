import DebugMetadata.Image.Heap
import DebugMetadata.Image.Root
import DebugMetadata.Image.Streams
import DebugMetadata.Table.Row

/-!
# Opened files

Opening a file reads its root and its directory and then looks at nothing but the
five streams that are known by name. The rows of the tables follow each other, so
the counts tell where each table starts.
-/

namespace DebugMetadata

structure TablePlace where
  table : DebugTable
  offset : Nat
  count : Nat
  deriving DecidableEq, Repr

/-- Places tables one after the other. Only debug tables have a row size. -/
def TablePlace.locate (sizes : Sizes) : (offset : Nat) → RowCounts → Except Error (List TablePlace)
  | _, [] => .ok []
  | offset, (number, count) :: counts =>
    match DebugTable.ofNumber? number with
    | none => .error (.unsupportedTable number)
    | some t =>
      (locate sizes (offset + count * sizes.rowSize t) counts).map (⟨t, offset, count⟩ :: ·)

structure Image where
  root : Root
  directory : Directory
  debug : DebugStream
  header : TablesHeader
  places : List TablePlace
  rowStream : Block
  strings : Block
  blobs : Block
  guids : Block

namespace Image

/-- The row count of a table. What `#~` says about a table counts more than what
`#Pdb` says. -/
def countOf (debug : DebugStream) (header : TablesHeader) (number : Nat) : Nat :=
  ((Keyed.find? number header.counts).or (Keyed.find? number debug.counts)).getD 0

def sizesOf (debug : DebugStream) (header : TablesHeader) : Sizes :=
  ⟨header.heapSizes, countOf debug header⟩

/-- Opens a file of which the root, the directory and the streams are given. A
heap that is missing is empty. -/
def ofStreams (root : Root) (directory : Directory) (stream? : String → Option Block) :
    Except Error Image :=
  match stream? "#Pdb", stream? "#~" with
  | none, _ => .error (.missingStream "#Pdb")
  | some _, none => .error (.missingStream "#~")
  | some pdb, some rowStream =>
    -- a stream that is cut short is reported alike for both
    match DebugStream.read? pdb, TablesHeader.read? rowStream with
    | some debug, some header =>
      let heap (name : String) : Block := (stream? name).getD #[]
      (TablePlace.locate (sizesOf debug header) header.size header.counts).map fun places =>
        ⟨root, directory, debug, header, places, rowStream, heap "#Strings", heap "#Blob",
          heap "#GUID"⟩
    | _, _ => .error .truncatedStreams

def read (file : Block) : Except Error Image :=
  if isMetadata file then
    match Root.read? file with
    | none => .error .truncatedRoot
    | some root =>
      match Directory.read? file root with
      | none => .error .truncatedDirectory
      | some directory => ofStreams root directory (directory.stream? file)
  else .error (.badSignature (file.slice 0 4).toList)

variable (m : Image)

def rowCount (number : Nat) : Nat := countOf m.debug m.header number

/-- All row counts that the file gives, by ascending table number. -/
def rowCounts : RowCounts :=
  (List.range 64).filterMap fun t =>
    ((Keyed.find? t m.header.counts).or (Keyed.find? t m.debug.counts)).map (t, ·)

def sizes : Sizes := sizesOf m.debug m.header

/-- The rows of a table, of which there are none if the file does not have it. -/
def view (t : DebugTable) : TableView :=
  match m.places.find? fun p => p.table == t with
  | some p => ⟨m.rowStream, p.offset, p.count, m.sizes.columns t⟩
  | none => ⟨m.rowStream, 0, 0, m.sizes.columns t⟩

theorem stream_view (t : DebugTable) : (m.view t).stream = m.rowStream := by
  unfold view
  split
  · rfl
  · rfl

theorem columns_view (t : DebugTable) : (m.view t).columns = m.sizes.columns t := by
  unfold view
  split
  · rfl
  · rfl

def tableOf (number : Int) : Except Error DebugTable :=
  match number with
  | .ofNat n =>
    match DebugTable.ofNumber? n with
    | some t => .ok t
    | none => .error (.noSuchTable number)
  | .negSucc _ => .error (.noSuchTable number)

def hasStream (name : String) : Bool := (Keyed.find? name m.directory).isSome

def guid (index : Int) : Except Error (Option Guid) := do
  Heap.guid m.guids (← Heap.index (m.hasStream "#GUID") ((index - 1) * Guid.size) index)

def blob (index : Int) : Except Error (List UInt8) := do
  Heap.blob m.blobs (← Heap.index (m.hasStream "#Blob") index index)

def string (index : Int) : Except Error String := do
  Heap.string m.strings (← Heap.index (m.hasStream "#Strings") index index)

end Image

end DebugMetadata
