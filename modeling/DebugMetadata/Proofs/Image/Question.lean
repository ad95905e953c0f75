import DebugMetadata.Image.Scope
import DebugMetadata.Record.Attached

/-!
# Questions to an opened file

Everything that can be asked of an opened file, as one type, so that a
statement about all operations is one statement. A listing is asked for with
the number of items that are taken from it, or without one for all of them.
-/

namespace DebugMetadata

inductive Question : Type → Type 1 where
  | guid (index : Int) : Question (Option Guid)
  | blob (index : Int) : Question (List UInt8)
  | string (index : Int) : Question String
  | row (t : DebugTable) (i : Int) : Question Row
  | rows (t : DebugTable) (limit : Option Nat) : Question (List (Nat × Row))
  | attached (entity : Handle) (limit : Option Nat) : Question (List Attachment)
  | records (entity : Handle) (limit : Option Nat) : Question (List Record)
  | payload (entity : Handle) (kind : RecordKind) : Question (Option (List UInt8))
  | scopes (method : Handle) (limit : Option Nat) : Question (List Handle)
  | scopeVariables (scope : Handle) (limit : Option Nat) : Question (List Handle)
  | methodVariables (method : Handle) (limit : Option Nat) : Question (List Handle)
  | localVariable (h : Handle) : Question LocalVariable

namespace Question

/-- A heap is asked for a position before its start. No row holds such an index. -/
def Negative {α : Type} : Question α → Prop
  | guid i | blob i | string i => i < 0
  | _ => False

end Question

namespace Image

def ask (m : Image) {α : Type} : Question α → Except Error α
  | .guid i => m.guid i
  | .blob i => m.blob i
  | .string i => m.string i
  | .row t i => (m.view t).row i
  | .rows t limit => (Listing.ofExcept (m.view t).rows).upTo limit
  | .attached entity limit => (Listing.ofExcept (m.attached entity)).upTo limit
  | .records entity limit => (m.records entity).upTo limit
  | .payload entity kind => m.payload? entity kind
  | .scopes method limit =>
    ((Listing.ofExcept (m.scopes method)).upTo limit).map (·.map (Handle.ofRow .localScope))
  | .scopeVariables scope limit =>
    (Run.upTo limit ((m.variableRun scope).map fun r => [r])).map
      (·.map (Handle.ofRow .localVariable))
  | .methodVariables method limit =>
    (Run.upTo limit (m.variableRuns method)).map (·.map (Handle.ofRow .localVariable))
  | .localVariable h => m.localVariable h

end Image

end DebugMetadata
