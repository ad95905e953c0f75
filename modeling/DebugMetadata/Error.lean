import DebugMetadata.Json.Display
import DebugMetadata.Text.Utf8
import DebugMetadata.Uri.Path

/-!
# Errors

One constructor for each cause. `kind` sorts the causes by what is at fault, and
`message` words them.
-/

namespace DebugMetadata

inductive ErrorKind where
  | invalidSignature
  | invalidMetadata
  | invalidHandle
  | variableNotFound
  | malformedBlob
  | malformedSourceLink
  | endOfData
  | negativePosition
  | hugePosition
  | noSuchTable
  | nestedTooDeep
  | invalidUri
  | fileNotFound
  deriving DecidableEq, Repr

inductive Error where
  | badSignature (found : List UInt8)
  | truncatedRoot
  | truncatedDirectory
  | missingStream (name : String)
  | truncatedStreams
  | unsupportedTable (number : Nat)
  | noSuchTable (number : Int)
  | rowOutOfRange (row : Int) (count : Nat)
  | truncatedRow (row : Int)
  | truncatedTable (count : Nat)
  /-- A heap is asked for a position before its start. -/
  | negativePosition (index : Int)
  /-- A missing heap is asked for a position of more than 64 bits. -/
  | hugePosition (position : Int)
  | guidOutOfRange (index : Nat)
  | blobOutOfRange (index : Nat)
  | blobTooLong (index : Nat)
  | badLengthByte (lead : UInt8)
  | badString (index : Nat)
  | endOfData
  | notMethodToken (token : Int)
  | negativeVariable (index : Int)
  | noSuchVariable (token : Int) (index : Nat)
  | oddScopesSize (size : Nat)
  | unterminatedName
  | badName (name : List UInt8)
  | badDocumentText (fault : Utf8.Fault)
  | badDocumentJson (fault : Json.Error)
  | noDocuments
  | badUriPattern (path : Text) (pattern : Json.Value)
  | badUri (fault : Uri.Fault)
  | noSuchFile
  deriving Repr

namespace Error

def kind : Error → ErrorKind
  | badSignature _ => .invalidSignature
  | truncatedRoot | truncatedDirectory | missingStream _ | truncatedStreams => .invalidMetadata
  | unsupportedTable _ | rowOutOfRange .. | truncatedRow _ | truncatedTable _ => .invalidMetadata
  | guidOutOfRange _ | blobOutOfRange _ | blobTooLong _ | badLengthByte _ => .invalidMetadata
  | badString _ => .invalidMetadata
  | noSuchTable _ => .noSuchTable
  | negativePosition _ => .negativePosition
  | hugePosition _ => .hugePosition
  | endOfData => .endOfData
  | notMethodToken _ => .invalidHandle
  | negativeVariable _ | noSuchVariable .. => .variableNotFound
  | oddScopesSize _ | unterminatedName | badName _ => .malformedBlob
  | badDocumentJson .tooDeep => .nestedTooDeep
  | badDocumentText _ | badDocumentJson _ | noDocuments | badUriPattern .. => .malformedSourceLink
  | badUri _ => .invalidUri
  | noSuchFile => .fileNotFound

def reasonText : Utf8.Reason → String
  | .invalidStart => "invalid start byte"
  | .invalidContinuation => "invalid continuation byte"
  | .unexpectedEnd => "unexpected end of data"

/-- Names the byte of a broken sequence if it is the only one. -/
def utf8Text (f : Utf8.Fault) : String :=
  let place :=
    if f.size = 1 then s!"byte 0x{Hex.text 2 f.first.toNat} in position {f.start}"
    else s!"bytes in position {f.start}-{f.start + f.size - 1}"
  s!"'utf-8' codec can't decode {place}: {reasonText f.reason}"

def message : Error → String
  | badSignature found => s!"Invalid metadata signature: {Quoted.bytes found}"
  | truncatedRoot => "Truncated metadata root"
  | truncatedDirectory => "Truncated metadata stream headers"
  | missingStream name => s!"Missing required metadata stream: {name}"
  | truncatedStreams => "Truncated #Pdb or #~ stream"
  | unsupportedTable number =>
    s!"Unsupported table in Portable PDB tables stream: {Hex.literal 4 number}"
  | noSuchTable number => s!"No row layout for table {number}"
  | rowOutOfRange row count => s!"Row {row} out of range for table with {count} rows"
  | truncatedRow row => s!"Truncated row {row}"
  | truncatedTable count => s!"Truncated table of {count} rows"
  | negativePosition index => s!"Negative heap index: {index}"
  | hugePosition position => s!"Heap position too large: {position}"
  | guidOutOfRange index => s!"GUID heap index out of range: {index}"
  | blobOutOfRange index => s!"Blob heap index out of range: {index}"
  | blobTooLong index => s!"Blob at index {index} exceeds the blob heap"
  | badLengthByte lead => s!"Invalid compressed integer lead byte: {Hex.literal 4 lead.toNat}"
  | badString index => s!"Invalid string heap index: {index}"
  | endOfData => "Unexpected end of data"
  | notMethodToken token => s!"Not a method definition token: {Hex.literal 10 token}"
  | negativeVariable index => s!"Invalid local variable index: {index}"
  | noSuchVariable token index =>
    s!"Method {Hex.literal 10 token} has no local variable at index {index}"
  | oddScopesSize size => s!"Invalid hoisted local scopes payload size: {size}"
  | unterminatedName => "Unterminated tuple element name"
  | badName name => s!"Invalid UTF-8 in tuple element name: {Quoted.bytes name}"
  | badDocumentText fault => s!"Invalid Source Link JSON: {utf8Text fault}"
  | badDocumentJson fault => s!"Invalid Source Link JSON: {fault.message}"
  | noDocuments => "Source Link JSON has no \"documents\" object"
  | badUriPattern path pattern =>
    s!"Invalid URI pattern for {Quoted.text path}: {pattern.display}"
  | badUri _ => "Invalid URI authority"
  | noSuchFile => "No such file"

end Error

end DebugMetadata
