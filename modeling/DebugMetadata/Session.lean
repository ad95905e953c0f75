import DebugMetadata.Image.Scope
import DebugMetadata.Record.Attached
import DebugMetadata.Record.Payload
import DebugMetadata.SourceLink.Basic

/-!
# Sessions

A session asks questions about one file. It opens the file anew for every
question that needs it, and keeps nothing but the Source Link maps, from the first
time that they are read without an error. The file may change or go away between
two steps.
-/

namespace DebugMetadata

namespace Session

/-- How deep the values of a Source Link document may be nested, the file, and what
a session keeps: the maps, once they are known, and how many times it has opened
the file. -/
structure State where
  depth : Nat
  file : Option Block
  maps : Option (List SourceLink.Map)
  opens : Nat

def State.initial (depth : Nat) (file : Option Block) : State := ⟨depth, file, none, 0⟩

inductive Step where
  | write (content : Block)
  | delete
  | isMetadata
  | hoistedScopes (token : Int)
  | tupleNames (token index : Int)
  | maps
  | resolve (path : Text)
  | records (entity : Handle)
  | inspect

inductive Answer where
  | done
  | yesNo (b : Bool)
  | hoistedScopes (scopes : Option (List HoistedScope))
  | tupleNames (names : Option (List (Option String)))
  | maps (maps : List SourceLink.Map)
  | link (link : Option SourceLink.Link)
  | records (records : List Record)
  | image (image : Image)

def display (path : Text) : String :=
  "<PortablePdb path=" ++ Quoted.text (.ofList (FilePath.normal path.toList)) ++ ">"

/-! ## Questions about an opened file -/

def decoded {α : Type} (decode : List UInt8 → Except Error α) :
    Option (List UInt8) → Except Error (Option α)
  | none => .ok none
  | some payload => (decode payload).map some

def hoistedScopesOf (m : Image) (method : Handle) : Except Error (Option (List HoistedScope)) := do
  decoded HoistedScope.decode (← m.payload? method .stateMachineHoistedLocalScopes)

def tupleNamesOf (m : Image) (token : Int) (method : Handle) (index : Nat) :
    Except Error (Option (List (Option String))) := do
  let runs ← m.variableRuns method
  match Run.nth? runs index with
  | none => .error (.noSuchVariable token index)
  | some row =>
    decoded TupleNames.decode (← m.payload? (Handle.ofRow .localVariable row) .tupleElementNames)

/-- The Source Link maps of the module, of which there are none without a record. -/
def mapsOf (depth : Nat) (m : Image) : Except Error (List SourceLink.Map) := do
  match ← m.payload? Handle.ofModule .sourceLink with
  | none => .ok []
  | some payload => SourceLink.decode depth payload

/-! ## Steps -/

/-- Opens the file for a question. A file that is there counts as opened, whatever
comes of it. -/
def opened {α : Type} (s : State) (question : Image → Except Error α) : State × Except Error α :=
  match s.file with
  | none => (s, .error .noSuchFile)
  | some file =>
    (⟨s.depth, s.file, s.maps, s.opens + 1⟩, match Image.read file with
      | .error e => .error e
      | .ok m => question m)

/-- The maps that the session keeps, or else those of the file, which it then
keeps. -/
def loadMaps (s : State) : State × Except Error (List SourceLink.Map) :=
  match s.maps with
  | some maps => (s, .ok maps)
  | none =>
    match opened s (mapsOf s.depth) with
    | (s, .ok maps) => (⟨s.depth, s.file, some maps, s.opens⟩, .ok maps)
    | (s, .error e) => (s, .error e)

def answer {α : Type} (form : α → Answer) (r : State × Except Error α) :
    State × Except Error Answer :=
  (r.1, r.2.map form)

def step (s : State) : Step → State × Except Error Answer
  | .write content => (⟨s.depth, some content, s.maps, s.opens⟩, .ok .done)
  | .delete => (⟨s.depth, none, s.maps, s.opens⟩, .ok .done)
  | .isMetadata => (s, .ok (.yesNo (isMetadataFile s.file)))
  | .hoistedScopes token =>
    match Handle.ofMethodToken token with
    | .error e => (s, .error e)
    | .ok method => answer .hoistedScopes (opened s fun m => hoistedScopesOf m method)
  | .tupleNames token index =>
    match Handle.ofMethodToken token with
    | .error e => (s, .error e)
    | .ok method =>
      -- a negative index is refused before the file is opened
      match index with
      | .negSucc _ => (s, .error (.negativeVariable index))
      | .ofNat i => answer .tupleNames (opened s fun m => tupleNamesOf m token method i)
  | .maps => answer .maps (loadMaps s)
  | .resolve path =>
    -- a pattern that is no URI fails here, after the maps are kept
    match loadMaps s with
    | (s, .error e) => (s, .error e)
    | (s, .ok maps) => answer .link (s, SourceLink.resolve maps path)
  | .records entity => answer .records (opened s fun m => (m.records entity).all)
  | .inspect => answer .image (opened s .ok)

def run (s : State) : List Step → List (State × Except Error Answer)
  | [] => []
  | a :: steps =>
    let r := step s a
    r :: run r.1 steps

end Session

end DebugMetadata
