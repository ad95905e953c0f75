import DebugMetadata.Separated
import DebugMetadata.Text.CodePoint
import DebugMetadata.Text.Digits

/-!
# Addresses in brackets

The text between the brackets of a host is an IPv6 address, which may end in a
dotted IPv4 address and may name a zone, or an address of a later version.
-/

namespace DebugMetadata

namespace Uri

open CodePoint (char)

def isOctet (cs : List Char) : Bool :=
  !cs.isEmpty && cs.all Char.isDigit && cs.length ≤ 3 &&
    (cs == ['0'] || cs.head? != some '0') &&
    Digits.value cs ≤ 255

def isDotted (cs : List Char) : Bool :=
  let octets := Separated.parts '.' cs
  octets.length == 4 && octets.all isOctet

def isGroup (cs : List Char) : Bool :=
  !cs.isEmpty && cs.length ≤ 4 && cs.all Hex.isDigit

/-- The groups of an address, of which a dotted tail makes two. -/
def groups? (cs : List Char) : Option (List (List Char)) :=
  let parts := Separated.parts ':' cs
  if parts.length < 3 then none
  else
    match parts.getLast? with
    | some last =>
      if last.contains '.' then
        if isDotted last then some (parts.dropLast ++ [['0'], ['0']]) else none
      else some parts
    | none => none

/-- The positions of the empty groups between the first and the last one. -/
def gaps (groups : List (List Char)) : List Nat :=
  (List.range groups.length).filter fun i =>
    0 < i && i + 1 < groups.length && (groups[i]?.getD []).isEmpty

/-- The groups on one side of a gap: nothing, when the gap is at the end of the
address, which shows as one empty group. -/
def isSide (side : List (List Char)) : Bool := side == [[]] || side.all isGroup

def sideLength (side : List (List Char)) : Nat := if side == [[]] then 0 else side.length

/-- Eight groups, or fewer around one gap, which stands for at least one. -/
def isGrouped (groups : List (List Char)) : Bool :=
  match gaps groups with
  | [] => groups.length == 8 && groups.all isGroup
  | [i] =>
    let before := groups.take i
    let behind := groups.drop (i + 1)
    -- nine, because a gap at an end of the address shows as two empty groups
    groups.length ≤ 9 && isSide before && isSide behind && sideLength before + sideLength behind < 8
  | _ => false

/-- An IPv6 address. The zone after `%` may be any text that is not empty. -/
def isAddress (cs : List CodePoint) : Bool :=
  let (address, zone) := cs.span (· != char '%')
  let zoneFits := match zone with
    | [] => true
    | _ :: name => !name.isEmpty && !name.contains (char '%')
  zoneFits && (((CodePoint.chars? address).bind groups?).map isGrouped).getD false

/-- An address of a later version: its number after `v`, a point and more text. -/
def isFutureAddress (cs : List CodePoint) : Bool :=
  match cs with
  | char 'v' :: version =>
    let (digits, rest) := version.span (CodePoint.satisfies Hex.isDigit)
    !digits.isEmpty && rest.head? == some (char '.') && 1 < rest.length
  | _ => false

end Uri

end DebugMetadata
