import DebugMetadata.Image.Heap

/-!
# Kinds of custom debug information

The kind of a record is a GUID. Some are known by name.
-/

namespace DebugMetadata

inductive RecordKind where
  | asyncMethodSteppingInformation
  | stateMachineHoistedLocalScopes
  | dynamicLocalVariables
  | tupleElementNames
  | defaultNamespace
  | encLocalSlotMap
  | encLambdaAndClosureMap
  | sourceLink
  | embeddedSource
  deriving DecidableEq, Repr

namespace RecordKind

def guid : RecordKind → Guid
  | asyncMethodSteppingInformation => ⟨0x54FD2AC5E925401A9C2AF94F171072F8⟩
  | stateMachineHoistedLocalScopes => ⟨0x6DA9A61EF8C74874BE6268BC5630DF71⟩
  | dynamicLocalVariables => ⟨0x83C563C4B4F347D5B824BA5441477EA8⟩
  | tupleElementNames => ⟨0xED9FDF71887947478ED3FE5EDE3CE710⟩
  | defaultNamespace => ⟨0x58B2EAB6209F4E4EA22CB2D0F910C782⟩
  | encLocalSlotMap => ⟨0x755F52A891C545BEB4B8209571E552BD⟩
  | encLambdaAndClosureMap => ⟨0xA643004C0240496FA78330D64F4979DE⟩
  | sourceLink => ⟨0xCC110556A0914D389FEC25AB9A351A6A⟩
  | embeddedSource => ⟨0x0E8A571B6926466EB4AD8AB04611F5FE⟩

def name : RecordKind → String
  | asyncMethodSteppingInformation => "AsyncMethodSteppingInformation"
  | stateMachineHoistedLocalScopes => "StateMachineHoistedLocalScopes"
  | dynamicLocalVariables => "DynamicLocalVariables"
  | tupleElementNames => "TupleElementNames"
  | defaultNamespace => "DefaultNamespace"
  | encLocalSlotMap => "EncLocalSlotMap"
  | encLambdaAndClosureMap => "EncLambdaAndClosureMap"
  | sourceLink => "SourceLink"
  | embeddedSource => "EmbeddedSource"

def all : List RecordKind :=
  [asyncMethodSteppingInformation, stateMachineHoistedLocalScopes, dynamicLocalVariables,
    tupleElementNames, defaultNamespace, encLocalSlotMap, encLambdaAndClosureMap, sourceLink,
    embeddedSource]

def ofGuid? (g : Guid) : Option RecordKind := all.find? fun k => k.guid == g

def ofName? (s : String) : Option RecordKind := all.find? fun k => k.name == s

theorem ofGuid?_guid (k : RecordKind) : ofGuid? k.guid = some k := by
  cases k <;> decide

end RecordKind

end DebugMetadata
