import DebugMetadata.Listing
import DebugMetadata.Image.Basic
import DebugMetadata.Record.Kind

/-!
# Custom debug records

The records of an entity are the rows of one table that have the entity as their
parent, in table order. A row names a kind and a payload by their heap indices.
`records` lists them with both looked up, `payload?` looks for the first one of a
kind and leaves the payloads of all others alone.
-/

namespace DebugMetadata

structure Attachment where
  parent : Handle
  kind : Nat
  value : Nat
  deriving DecidableEq, Repr

structure Record where
  guid : Option Guid
  payload : List UInt8
  deriving DecidableEq, Repr

def Record.kind? (r : Record) : Option RecordKind := r.guid.bind RecordKind.ofGuid?

namespace Attachment

/-- The attachment of a row; nothing if its parent is in no table. -/
def ofRow? (row : Row) : Option Attachment :=
  (Parent.decode (row.get .parent)).map fun parent => ⟨parent, row.get .kind, row.get .value⟩

def record (guids blobs : Block) (a : Attachment) : Except Error Record := do
  let guid ← Heap.guid guids a.kind
  let payload ← Heap.blob blobs a.value
  .ok ⟨guid, payload⟩

def find? (guids : Block) (kind : RecordKind) : List Attachment → Except Error (Option Attachment)
  | [] => .ok none
  | a :: as =>
    match Heap.guid guids a.kind with
    | .error e => .error e
    | .ok guid => if guid = some kind.guid then .ok (some a) else find? guids kind as

end Attachment

namespace Image

variable (m : Image)

def attached (entity : Handle) : Except Error (List Attachment) := do
  let rows ← (m.view .customDebugInformation).rows
  .ok ((rows.filterMap fun (_, row) => Attachment.ofRow? row).filter fun a => a.parent == entity)

def records (entity : Handle) : Listing Error Record :=
  match m.attached entity with
  | .error e => ⟨[], some e⟩
  | .ok found => Listing.through (Attachment.record m.guids m.blobs) [] found

def payload? (entity : Handle) (kind : RecordKind) : Except Error (Option (List UInt8)) := do
  match ← Attachment.find? m.guids kind (← m.attached entity) with
  | none => .ok none
  | some a => (Heap.blob m.blobs a.value).map some

end Image

end DebugMetadata
