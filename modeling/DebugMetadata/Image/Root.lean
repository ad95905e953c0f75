import DebugMetadata.Bytes.Alignment
import DebugMetadata.Bytes.Block
import DebugMetadata.Keyed
import DebugMetadata.Text.Utf8

/-!
# The metadata root

A file starts with a signature, a version text of any length and the number of
its streams. After that comes a header for every stream: where it is, how long it
is, and its name, which ends with a zero byte and is padded to four bytes.
-/

namespace DebugMetadata

def signature : List UInt8 := [0x42, 0x53, 0x4A, 0x42]

def isMetadata (file : Block) : Bool := file.read? 0 4 == some signature

/-- Whether there is a file that starts with the signature. One that cannot be
read counts as none. -/
def isMetadataFile (file : Option Block) : Bool := file.any isMetadata

structure Root where
  majorVersion : Nat
  minorVersion : Nat
  reserved : Nat
  versionField : List UInt8
  flags : Nat
  streamCount : Nat
  deriving DecidableEq, Repr

namespace Root

def versionOffset : Nat := 16

def read? (file : Block) : Option Root := do
  let majorVersion ← file.number? 4 2
  let minorVersion ← file.number? 6 2
  let reserved ← file.number? 8 4
  let length ← file.number? 12 4
  let versionField ← file.read? versionOffset length
  let flags ← file.number? (versionOffset + length) 2
  let streamCount ← file.number? (versionOffset + length + 2) 2
  some ⟨majorVersion, minorVersion, reserved, versionField, flags, streamCount⟩

def size (r : Root) : Nat := versionOffset + r.versionField.length + 4

/-- The version, without the zero bytes that pad it. -/
def version (r : Root) : String :=
  Utf8.decodeLossy (r.versionField.reverse.dropWhile (· == 0)).reverse

end Root

structure Extent where
  offset : Nat
  size : Nat
  deriving DecidableEq, Repr

structure StreamHeader where
  extent : Extent
  name : List UInt8
  deriving DecidableEq, Repr

namespace StreamHeader

def size (h : StreamHeader) : Nat := 8 + Alignment.padded (h.name.length + 1)

def read? (file : Block) (position : Nat) : Option StreamHeader := do
  let offset ← file.number? position 4
  let size ← file.number? (position + 4) 4
  let name ← file.terminated? (position + 8)
  some ⟨⟨offset, size⟩, name⟩

/-- The headers from a position on, behind those of `found`, which are in reverse. -/
def readFrom? (file : Block) :
    (count : Nat) → (position : Nat) → (found : List StreamHeader) → Option (List StreamHeader)
  | 0, _, found => some found.reverse
  | count + 1, position, found =>
    match read? file position with
    | none => none
    | some h => readFrom? file count (position + h.size) (h :: found)

/-- Writes `#~` for `#-`: tables that are not compressed are laid out alike. -/
def unified (cs : List Char) : List Char :=
  List.zipWith (fun before c => if before = '#' ∧ c = '-' then '~' else c) ('-' :: cs) cs

def streamName (h : StreamHeader) : String :=
  String.ofList (unified (Utf8.decodeLossy h.name).toList)

end StreamHeader

/-- The streams of a file by name. A repeated name stands for its last header. -/
abbrev Directory := List (String × Extent)

namespace Directory

def ofHeaders (hs : List StreamHeader) : Directory :=
  Keyed.effective (hs.map fun h => (h.streamName, h.extent))

def read? (file : Block) (root : Root) : Option Directory :=
  (StreamHeader.readFrom? file root.streamCount root.size []).map ofHeaders

def stream? (d : Directory) (file : Block) (name : String) : Option Block :=
  (Keyed.find? name d).map fun e => file.slice e.offset e.size

end Directory

end DebugMetadata
