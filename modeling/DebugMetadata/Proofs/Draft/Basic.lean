import DebugMetadata.Record.Attached
import DebugMetadata.Proofs.Image.Container
import DebugMetadata.Proofs.Image.Tables

/-!
# Drafts of files

A draft lists what a file is to say: how many methods there are, their scopes
with the names of the variables, and the records of methods, scopes, variables
and the module. `file` writes it down: heaps in the order of the draft, scopes
and variables in the order of their rows, records sorted by coded parent.
-/

namespace DebugMetadata

structure Draft.Scope where
  method : Nat
  names : List String
  deriving DecidableEq, Repr

/-- The row that a record is attached to. -/
inductive Draft.Owner where
  | methodDef (row : Nat)
  | moduleDef
  | localScope (row : Nat)
  | localVariable (row : Nat)
  deriving DecidableEq, Repr

structure Draft.Entry where
  owner : Draft.Owner
  kind : Guid
  payload : List UInt8
  deriving DecidableEq, Repr

structure Draft where
  methods : Nat
  heapSizes : Nat
  scopes : List Draft.Scope
  entries : List Draft.Entry
  deriving DecidableEq, Repr

namespace Draft

def Owner.handle : Owner → Handle
  | methodDef row => Handle.ofRow .methodDef row
  | moduleDef => Handle.ofModule
  | localScope row => Handle.ofRow .localScope row
  | localVariable row => Handle.ofRow .localVariable row

def Owner.coded : Owner → Nat
  | methodDef row => 32 * row
  | moduleDef => 32 * 1 + 7
  | localScope row => 32 * row + 23
  | localVariable row => 32 * row + 24

/-- Where things of given sizes start when they are put one after the other. -/
def offsets {α : Type} (size : α → Nat) : (start : Nat) → List α → List Nat
  | _, [] => []
  | start, a :: as => start :: offsets size (start + size a) as

variable (d : Draft)

/-- The names of all variables, each with its number in its scope. -/
def locals : List (String × Nat) := d.scopes.flatMap fun s => s.names.zipIdx

/-! ## Heaps -/

def text (name : String) : List UInt8 := Utf8.encode name ++ [0]

def blob (payload : List UInt8) : List UInt8 :=
  Compressed.write (Compressed.narrowest payload.length) payload.length ++ payload

def strings : List UInt8 := 0 :: d.locals.flatMap fun v => text v.1

def blobs : List UInt8 := 0 :: d.entries.flatMap fun e => blob e.payload

def guids : List UInt8 := d.entries.flatMap fun e => e.kind.bytes

/-! ## Rows -/

def scopeRows : List (List Nat) :=
  (d.scopes.zip (offsets (·.names.length) 1 d.scopes)).map fun p =>
    [p.1.method, 0, p.2, 1, 0, 0x100]

def variableRows : List (List Nat) :=
  (d.locals.zip (offsets (fun v => (text v.1).length) 1 d.locals)).map fun p => [0, p.1.2, p.2]

def indexed : List (Entry × Nat × Nat) :=
  d.entries.zip ((List.range' 1 d.entries.length).zip (offsets (fun e => (blob e.payload).length) 1 d.entries))

def sorted : List (Entry × Nat × Nat) :=
  d.indexed.insertionSort fun a b => a.1.owner.coded ≤ b.1.owner.coded

def recordRows : List (List Nat) := d.sorted.map fun e => [e.1.owner.coded, e.2.1, e.2.2]

def rows? : DebugTable → Option (List (List Nat))
  | .localScope => if d.scopes.isEmpty then none else some d.scopeRows
  | .localVariable => if d.locals.isEmpty then none else some d.variableRows
  | .customDebugInformation => if d.entries.isEmpty then none else some d.recordRows
  | _ => none

/-! ## Streams -/

/-- Methods and parents are indexed by what their rows need, variables and
constants by 16 bits, heaps by what the flags say. -/
def width : Content → Nat
  | .number16 => 2
  | .number32 => 4
  | .stringIndex => if d.heapSizes &&& 0x01 != 0 then 4 else 2
  | .guidIndex => if d.heapSizes &&& 0x02 != 0 then 4 else 2
  | .blobIndex => if d.heapSizes &&& 0x04 != 0 then 4 else 2
  | .rowOf t => if t = .methodDef ∧ 65536 ≤ d.methods then 4 else 2
  | .parent => if 2048 ≤ max (max d.methods 1) (max d.scopes.length d.locals.length) then 4 else 2

/-- The module and the methods are in a file of their own, which is only
counted. -/
def debugStream : DebugStream :=
  ⟨List.replicate 20 0, 0, Bits.mask [Table.moduleDef.number, Table.methodDef.number],
    [(Table.moduleDef.number, 1), (Table.methodDef.number, d.methods)]⟩

def tablesStream : TablesStream := ⟨0, 2, 0, d.heapSizes, 1, 0, 0, d.rows?⟩

def container : Container :=
  ⟨1, 1, padded (Utf8.encode "PDB v1.0" ++ [0]),
    [("#Pdb", d.debugStream.written), ("#~", d.tablesStream.written d.width),
      ("#Strings", d.strings), ("#Blob", d.blobs), ("#GUID", d.guids)]⟩

def file : Block := d.container.written.toArray

/-! ## Drafts that can be written -/

def Owner.Exists : Owner → Prop
  | methodDef row => 1 ≤ row ∧ row ≤ d.methods
  | moduleDef => True
  | localScope row => 1 ≤ row ∧ row ≤ d.scopes.length
  | localVariable row => 1 ≤ row ∧ row ≤ d.locals.length

/-- A draft whose references exist and whose numbers fit the bytes that they
are written in. -/
structure WellFormed : Prop where
  methods : d.methods < 2 ^ 27
  heapSizes : d.heapSizes < 8
  scopes : ∀ s ∈ d.scopes, 1 ≤ s.method ∧ s.method ≤ d.methods
  names : ∀ v ∈ d.locals, '\x00' ∉ v.1.toList
  locals : d.locals.length ≤ 65534
  owners : ∀ e ∈ d.entries, e.owner.Exists d
  payloads : ∀ e ∈ d.entries, e.payload.length < 2 ^ 29
  stringIndices : ∀ i ∈ offsets (fun v => (text v.1).length) 1 d.locals,
    i < 256 ^ d.width .stringIndex
  guidIndices : d.entries.length < 256 ^ d.width .guidIndex
  blobIndices : ∀ i ∈ offsets (fun e => (blob e.payload).length) 1 d.entries,
    i < 256 ^ d.width .blobIndex
  parents : ∀ e ∈ d.entries, e.owner.coded < 256 ^ d.width .parent
  extents : ∀ h ∈ d.container.headers, h.extent.offset < 2 ^ 32 ∧ h.extent.size < 2 ^ 32

/-- Three methods, of which the second has two of the scopes, and records that
are not in the order of their parents. -/
def sample : Draft :=
  ⟨3, 2, [⟨2, ["x", ""]⟩, ⟨1, []⟩, ⟨2, ["é"]⟩],
    [⟨.moduleDef, RecordKind.sourceLink.guid, [1, 2]⟩,
      ⟨.methodDef 2, RecordKind.sourceLink.guid, []⟩,
      ⟨.moduleDef, RecordKind.embeddedSource.guid, [3]⟩,
      ⟨.localVariable 3, RecordKind.tupleElementNames.guid, [0x61, 0]⟩,
      ⟨.moduleDef, RecordKind.sourceLink.guid, []⟩]⟩

theorem wellFormed_sample : sample.WellFormed where
  methods := by decide
  heapSizes := by decide
  scopes := by decide
  names := by decide
  locals := by decide
  owners := by
    intro e he
    simp only [sample, List.mem_cons, List.not_mem_nil, or_false] at he
    rcases he with rfl | rfl | rfl | rfl | rfl
    · exact trivial
    · exact ⟨by decide, by decide⟩
    · exact trivial
    · exact ⟨by decide, by decide⟩
    · exact trivial
  payloads := by decide
  stringIndices := by decide +kernel
  guidIndices := by decide
  blobIndices := by decide +kernel
  parents := by decide
  extents := by decide +kernel

end Draft

end DebugMetadata
