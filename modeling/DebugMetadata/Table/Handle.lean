import DebugMetadata.Error
import DebugMetadata.Table.Basic

/-!
# Handles

A handle names a row of a table. A method is also named by a token, which has the
number of the table in its high byte; a bare row number will do.

A custom debug record belongs to a row of one of 27 tables. Its parent column
holds the row number and, in the low five bits, the position of the table among
them.
-/

namespace DebugMetadata

structure Handle where
  table : Int
  row : Int
  deriving DecidableEq, Repr

namespace Handle

def ofRow (t : Table) (row : Nat) : Handle := ⟨t.number, row⟩

def ofModule : Handle := ofRow .moduleDef 1

def tokenShift : Nat := 24

/-- The largest row number that a token holds. -/
def rowMask : Nat := 1 <<< tokenShift - 1

def ofMethodToken (token : Int) : Except Error Handle :=
  let table := token / (rowMask + 1 : Nat)
  let row := token % (rowMask + 1 : Nat)
  if (table = 0 ∨ table = Table.methodDef.number) ∧ row ≠ 0 then
    .ok ⟨Table.methodDef.number, row⟩
  else .error (.notMethodToken token)

def display (h : Handle) : String := s!"<Handle table={Hex.literal 4 h.table} row={h.row}>"

end Handle

namespace Parent

/-- The tables whose rows can have custom debug information, by tag. -/
def tables : List Table :=
  [.methodDef, .field, .typeRef, .typeDef, .param, .interfaceImpl, .memberRef, .moduleDef,
    .declSecurity, .property, .event, .standAloneSig, .moduleRef, .typeSpec, .assembly,
    .assemblyRef, .file, .exportedType, .manifestResource, .genericParam, .genericParamConstraint,
    .methodSpec, .document, .localScope, .localVariable, .localConstant, .importScope]

def tagBits : Nat := 5

def tagBound : Nat := 1 <<< tagBits

def tag? (t : Table) : Option Nat := tables.findIdx? (· == t)

/-- The handle of a coded parent; nothing for a tag that stands for no table. -/
def decode (n : Nat) : Option Handle :=
  (tables[n % tagBound]?).map fun t => Handle.ofRow t (n / tagBound)

def encode? (t : Table) (row : Nat) : Option Nat := (tag? t).map (· + tagBound * row)

end Parent

end DebugMetadata
