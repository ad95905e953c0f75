import DebugMetadata.Separated
import DebugMetadata.Text.CodePoint

/-!
# File paths

Paths are compared with forward slashes. The normal form of a path has no empty
parts and none that name the directory itself; two leading slashes stay two, as
some systems give them a meaning of their own.
-/

namespace DebugMetadata

namespace FilePath

open CodePoint (char)

def forward (cs : List CodePoint) : List CodePoint :=
  cs.map fun c => if c = char '\\' then char '/' else c

/-- A path seen from another one, which it replaces if it starts at the root. -/
def append (base cs : List CodePoint) : List CodePoint :=
  if cs.head? = some (char '/') then cs
  else if base.isEmpty || base.getLast? == some (char '/') then base ++ cs
  else base ++ char '/' :: cs

def root (cs : List CodePoint) : List CodePoint :=
  match (cs.takeWhile (· == char '/')).length with
  | 0 => []
  | 2 => [char '/', char '/']
  | _ => [char '/']

def normal (cs : List CodePoint) : List CodePoint :=
  let parts := (Separated.parts (char '/') cs).filter fun part => part != [] && part != [char '.']
  let whole := root cs ++ Separated.joined (char '/') parts
  if whole.isEmpty then [char '.'] else whole

end FilePath

end DebugMetadata
