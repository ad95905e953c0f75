/-!
# Metadata tables

Every table has a number. The tables of a program are only counted here, the
debug tables have rows with a layout of their own.
-/

namespace DebugMetadata

/-- The metadata tables, by ascending number. -/
inductive Table where
  | moduleDef
  | typeRef
  | typeDef
  | field
  | methodDef
  | param
  | interfaceImpl
  | memberRef
  | declSecurity
  | standAloneSig
  | event
  | property
  | moduleRef
  | typeSpec
  | assembly
  | assemblyRef
  | file
  | exportedType
  | manifestResource
  | genericParam
  | methodSpec
  | genericParamConstraint
  | document
  | methodDebugInformation
  | localScope
  | localVariable
  | localConstant
  | importScope
  | stateMachineMethod
  | customDebugInformation
  deriving DecidableEq, Repr

namespace Table

def number : Table → Nat
  | moduleDef => 0x00
  | typeRef => 0x01
  | typeDef => 0x02
  | field => 0x04
  | methodDef => 0x06
  | param => 0x08
  | interfaceImpl => 0x09
  | memberRef => 0x0A
  | declSecurity => 0x0E
  | standAloneSig => 0x11
  | event => 0x14
  | property => 0x17
  | moduleRef => 0x1A
  | typeSpec => 0x1B
  | assembly => 0x20
  | assemblyRef => 0x23
  | file => 0x26
  | exportedType => 0x27
  | manifestResource => 0x28
  | genericParam => 0x2A
  | methodSpec => 0x2B
  | genericParamConstraint => 0x2C
  | document => 0x30
  | methodDebugInformation => 0x31
  | localScope => 0x32
  | localVariable => 0x33
  | localConstant => 0x34
  | importScope => 0x35
  | stateMachineMethod => 0x36
  | customDebugInformation => 0x37

def name : Table → String
  | moduleDef => "Module"
  | typeRef => "TypeRef"
  | typeDef => "TypeDef"
  | field => "Field"
  | methodDef => "MethodDef"
  | param => "Param"
  | interfaceImpl => "InterfaceImpl"
  | memberRef => "MemberRef"
  | declSecurity => "DeclSecurity"
  | standAloneSig => "StandAloneSig"
  | event => "Event"
  | property => "Property"
  | moduleRef => "ModuleRef"
  | typeSpec => "TypeSpec"
  | assembly => "Assembly"
  | assemblyRef => "AssemblyRef"
  | file => "File"
  | exportedType => "ExportedType"
  | manifestResource => "ManifestResource"
  | genericParam => "GenericParam"
  | methodSpec => "MethodSpec"
  | genericParamConstraint => "GenericParamConstraint"
  | document => "Document"
  | methodDebugInformation => "MethodDebugInformation"
  | localScope => "LocalScope"
  | localVariable => "LocalVariable"
  | localConstant => "LocalConstant"
  | importScope => "ImportScope"
  | stateMachineMethod => "StateMachineMethod"
  | customDebugInformation => "CustomDebugInformation"

def all : List Table :=
  [moduleDef, typeRef, typeDef, field, methodDef, param, interfaceImpl, memberRef, declSecurity,
    standAloneSig, event, property, moduleRef, typeSpec, assembly, assemblyRef, file, exportedType,
    manifestResource, genericParam, methodSpec, genericParamConstraint, document,
    methodDebugInformation, localScope, localVariable, localConstant, importScope,
    stateMachineMethod, customDebugInformation]

def ofNumber? (n : Nat) : Option Table := all.find? fun t => t.number == n

theorem ofNumber?_number (t : Table) : ofNumber? t.number = some t := by
  cases t <;> rfl

theorem number_injective {t u : Table} (h : t.number = u.number) : t = u := by
  have := ofNumber?_number u
  rw [← h, ofNumber?_number] at this
  exact Option.some.inj this

end Table

/-- The tables whose rows are read. -/
inductive DebugTable where
  | document
  | methodDebugInformation
  | localScope
  | localVariable
  | localConstant
  | importScope
  | stateMachineMethod
  | customDebugInformation
  deriving DecidableEq, Repr

namespace DebugTable

def table : DebugTable → Table
  | document => .document
  | methodDebugInformation => .methodDebugInformation
  | localScope => .localScope
  | localVariable => .localVariable
  | localConstant => .localConstant
  | importScope => .importScope
  | stateMachineMethod => .stateMachineMethod
  | customDebugInformation => .customDebugInformation

def number (t : DebugTable) : Nat := t.table.number

def rowName (t : DebugTable) : String := t.table.name ++ "Row"

def all : List DebugTable :=
  [document, methodDebugInformation, localScope, localVariable, localConstant, importScope,
    stateMachineMethod, customDebugInformation]

def ofNumber? (n : Nat) : Option DebugTable := all.find? fun t => t.number == n

theorem ofNumber?_number (t : DebugTable) : ofNumber? t.number = some t := by
  cases t <;> rfl

theorem number_of_ofNumber? {n : Nat} {t : DebugTable} (h : ofNumber? n = some t) :
    t.number = n := by
  simpa using List.find?_some h

end DebugTable

end DebugMetadata
