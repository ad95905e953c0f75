import DebugMetadata.Uri.Address

/-!
# The path of a URI

Finds the path between the authority and the query or fragment. An authority is
refused when its brackets do not hold an address, or when a character of it is
written as a delimiter by systems that simplify characters.
-/

namespace DebugMetadata

namespace Uri

open CodePoint (char)

inductive Fault where
  | oneBracket
  | textBeforeBracket
  | textAfterBracket
  | badFutureAddress
  | badAddress
  | hiddenDelimiter
  deriving DecidableEq, Repr

/-- Characters whose compatibility form holds one of `/`, `?`, `#`, `@` and `:`. -/
def hiddenDelimiters : List Nat :=
  [0x2047, 0x2048, 0x2049, 0x2100, 0x2101, 0x2105, 0x2106, 0x2A74, 0xFE13, 0xFE16, 0xFE55, 0xFE56,
    0xFE5F, 0xFE6B, 0xFF03, 0xFF0F, 0xFF1A, 0xFF1F, 0xFF20]

/-- Checks the text that stands for a host in an authority with brackets. -/
def checkHost (host : List CodePoint) : Except Fault Unit :=
  if host.head? = some (char 'v') then
    if isFutureAddress host then .ok () else .error .badFutureAddress
  else if isAddress host then .ok () else .error .badAddress

/-- Checks an authority that has both brackets. User information ends at the last
`@`. Where no bracket follows it, the host ends at the first colon. -/
def checkBracketed (authority : List CodePoint) : Except Fault Unit :=
  let afterUser := (authority.reverse.takeWhile (· != char '@')).reverse
  match afterUser.span (· != char '[') with
  | (before, _ :: bracketed) =>
    let (host, tail) := bracketed.span (· != char ']')
    let behind := tail.drop 1
    if !before.isEmpty then .error .textBeforeBracket
    else if !behind.isEmpty && behind.head? != some (char ':') then .error .textAfterBracket
    else checkHost host
  -- the opening bracket stood in the user information
  | (_, []) => checkHost (afterUser.takeWhile (· != char ':'))

def checkBrackets (authority : List CodePoint) : Except Fault Unit :=
  match authority.contains (char '['), authority.contains (char ']') with
  | false, false => .ok ()
  | true, true => checkBracketed authority
  | _, _ => .error .oneBracket

def checkCharacters (authority : List CodePoint) : Except Fault Unit :=
  if authority.any fun c => hiddenDelimiters.contains c.toNat then .error .hiddenDelimiter
  else .ok ()

def isSchemeChar (c : Char) : Bool := c.isAlphanum || c == '+' || c == '-' || c == '.'

/-- The text without a scheme: a letter and then letters, digits, `+`, `-` and
`.`, up to the first colon. -/
def withoutScheme (s : List CodePoint) : List CodePoint :=
  match s.span (· != char ':') with
  | (first :: more, _ :: rest) =>
    if first.satisfies Char.isAlpha && more.all (CodePoint.satisfies isSchemeChar) then rest
    else s
  | _ => s

/-- The text without blanks and controls before it and without tabs and line ends
anywhere. -/
def cleaned (s : List CodePoint) : List CodePoint :=
  (s.dropWhile fun c => c.toNat ≤ 0x20).filter fun c =>
    c != char '\t' && c != char '\n' && c != char '\r'

def withoutQuery (s : List CodePoint) : List CodePoint :=
  s.takeWhile fun c => c != char '?' && c != char '#'

/-- Whether an authority goes on with a code point. -/
def inAuthority (c : CodePoint) : Bool := c != char '/' && c != char '?' && c != char '#'

def path (s : List CodePoint) : Except Fault (List CodePoint) :=
  match withoutScheme (cleaned s) with
  | char '/' :: char '/' :: rest => do
    let (authority, rest) := rest.span inAuthority
    checkBrackets authority
    checkCharacters authority
    .ok (withoutQuery rest)
  | rest => .ok (withoutQuery rest)

end Uri

end DebugMetadata
