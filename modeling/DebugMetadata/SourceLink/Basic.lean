import DebugMetadata.Error
import DebugMetadata.FilePath
import DebugMetadata.Json.Reader
import DebugMetadata.Uri.Percent

/-!
# Source Link

A map sends the files below a path to the files below a URI. Patterns have a star
where the rest of the path goes. The first map that fits a path decides; its URI
pattern is also read as a URI, for a path that tells revisions apart.

Maps come from a document, a JSON object in UTF-8. Its `documents` object has them
as its members, a path pattern as the key and a URI pattern as the value. Of a
repeated key the last value counts.
-/

namespace DebugMetadata

namespace SourceLink

open CodePoint (char)

/-! ## Maps -/

structure Map where
  pathPattern : Text
  uriPattern : Text
  deriving DecidableEq, Repr

/-- Where a file is to be found, and a path that says which file of which
revision it is. -/
structure Link where
  uri : Text
  relativePath : Text
  deriving DecidableEq, Repr

def wildcard : CodePoint := char '*'

def withoutWildcards (pattern : List CodePoint) : List CodePoint := pattern.filter (· != wildcard)

def start (pathPattern : List CodePoint) : List CodePoint :=
  FilePath.forward (withoutWildcards pathPattern)

/-- Puts the rest of a path in the place of the first star, or at the end of a
pattern that has none. -/
def substitute (pattern suffix : List CodePoint) : List CodePoint :=
  match pattern.span (· != wildcard) with
  | (before, _ :: behind) => before ++ suffix ++ behind
  | (_, []) => pattern ++ suffix

/-- The path of a URI pattern with its escapes decoded, not counting one slash
before it. -/
def basePath (uriPattern : List CodePoint) : Except Uri.Fault (List CodePoint) := do
  let path := Uri.unescape (← Uri.path (withoutWildcards uriPattern))
  .ok (if path.head? = some (char '/') then path.drop 1 else path)

def relativePath (base suffix : List CodePoint) : List CodePoint :=
  if suffix.isEmpty then base else FilePath.append base suffix

namespace Map

def literal (m : Map) : Text := .ofList (start m.pathPattern.toList)

def suffix? (m : Map) (path : List CodePoint) : Option (List CodePoint) :=
  let literal := start m.pathPattern.toList
  if literal.isPrefixOf path then some (path.drop literal.length) else none

def link (m : Map) (suffix : List CodePoint) : Except Uri.Fault Link := do
  let pattern := m.uriPattern.toList
  let base ← basePath pattern
  .ok ⟨.ofList (substitute pattern suffix), .ofList (relativePath base suffix)⟩

end Map

def resolve (maps : List Map) (path : Text) : Except Error (Option Link) :=
  match maps.findSome? fun m => (m.suffix? (FilePath.forward path.toList)).map (m, ·) with
  | none => .ok none
  | some (m, suffix) =>
    match m.link suffix with
    | .ok link => .ok (some link)
    | .error fault => .error (.badUri fault)

/-! ## Documents -/

def mapOf : Text × Json.Value → Except Error Map
  | (path, .string uri) => .ok ⟨path, uri⟩
  | (path, v) => .error (.badUriPattern path v)

/-- The members of the last `documents` object of a value. -/
def documents? : Json.Value → Option (List (Text × Json.Value))
  | .object members =>
    match Keyed.find? ("documents" : Text) (Keyed.effective members) with
    | some (.object documents) => some documents
    | _ => none
  | _ => none

def mapsOf (v : Json.Value) : Except Error (List Map) :=
  match documents? v with
  | none => .error .noDocuments
  | some members => (Keyed.effective members).mapM mapOf

def decode (depth : Nat) (payload : List UInt8) : Except Error (List Map) := do
  let text ← (Utf8.decode payload).mapError .badDocumentText
  let v ← (Json.parse depth text).mapError .badDocumentJson
  mapsOf v

end SourceLink

end DebugMetadata
