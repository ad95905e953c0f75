import DebugMetadata.Json.Basic
import DebugMetadata.Text.Digits

/-!
# Reading JSON texts

A reader takes a value off the front of a text and gives the rest. When it stops
at a problem it gives the rest from there, which tells the position. Arrays and
objects are read by readers for their items, so the reader for values at one
depth is built from the one for the depth below.
-/

namespace DebugMetadata

namespace Json

open CodePoint (char)

/-- Why a reader stops: a problem with the text that is left, or a limit. -/
inductive Stop where
  | problem (p : Problem) (rest : List Char)
  | longInteger (digits : Nat)
  | tooDeep
  deriving DecidableEq, Repr

abbrev Reads (α : Type) := List Char → Except Stop (α × List Char)

/-! ## Characters and words -/

def isBlank (c : Char) : Bool := c == ' ' || c == '\t' || c == '\n' || c == '\r'

def skipBlanks (s : List Char) : List Char := s.dropWhile isBlank

def after? (word text : List Char) : Option (List Char) :=
  if word.isPrefixOf text then some (text.drop word.length) else none

def words : List (List Char × Value) :=
  [(['n', 'u', 'l', 'l'], .null), (['t', 'r', 'u', 'e'], .bool true),
    (['f', 'a', 'l', 's', 'e'], .bool false), (['N', 'a', 'N'], .nan),
    (['I', 'n', 'f', 'i', 'n', 'i', 't', 'y'], .infinity false),
    (['-', 'I', 'n', 'f', 'i', 'n', 'i', 't', 'y'], .infinity true)]

/-! ## Strings -/

def simpleEscape? : Char → Option Char
  | '"' => some '"'
  | '\\' => some '\\'
  | '/' => some '/'
  | 'b' => some '\x08'
  | 'f' => some '\x0c'
  | 'n' => some '\n'
  | 'r' => some '\r'
  | 't' => some '\t'
  | _ => none

/-- The number of four hexadecimal digits. Another character must follow them. -/
def codeUnit? : List Char → Option Nat
  | a :: b :: c :: d :: _ :: _ => do
    let a ← Hex.value? a
    let b ← Hex.value? b
    let c ← Hex.value? c
    let d ← Hex.value? d
    some (((a * 16 + b) * 16 + c) * 16 + d)
  | _ => none

def isHighSurrogate (n : Nat) : Bool := 0xD800 ≤ n && n < 0xDC00

def isLowSurrogate (n : Nat) : Bool := 0xDC00 ≤ n && n < 0xE000

def pairChar (high low : Nat) : Char :=
  Char.ofNat (0x10000 + (high - 0xD800) * 0x400 + (low - 0xDC00))

/-- The code point of an escape whose number follows, and how much of the text
that comes after the `u` belongs to the escape. A high surrogate takes the escape
after it along if that is a low one, and stands alone otherwise. -/
def unicodeEscape (s : List Char) : Except Stop (CodePoint × Nat) :=
  match codeUnit? s with
  | none => .error (.problem .badUnicodeEscape ('u' :: s))
  | some high =>
    if isHighSurrogate high then
      match s.drop 4 with
      | '\\' :: 'u' :: t =>
        match codeUnit? t with
        | none => .error (.problem .badUnicodeEscape ('u' :: t))
        | some low =>
          -- an escape that is no low surrogate is left to be read on its own
          .ok (if isLowSurrogate low then (char (pairChar high low), 10) else (.ofNat high, 4))
      | _ => .ok (.ofNat high, 4)
    else .ok (.ofNat high, 4)

/-- The code point of the escape whose backslash is followed by `s`, and how much
of `s` belongs to the escape. -/
def escape (opening s : List Char) : Except Stop (CodePoint × Nat) :=
  match s with
  | [] => .error (.problem .unterminatedString opening)
  | c :: t =>
    if c = 'u' then (unicodeEscape t).map fun (c, n) => (c, n + 1)
    else
      match simpleEscape? c with
      | some c => .ok (char c, 1)
      | none => .error (.problem .badEscape ('\\' :: s))

/-- Reads the rest of a string that began at `opening`, leaving out the first
`skip` characters, and puts it behind `found`, which is in reverse. -/
def characters (opening : List Char) :
    (skip : Nat) → (found : List CodePoint) → List Char → Except Stop (List CodePoint × List Char)
  | _, _, [] => .error (.problem .unterminatedString opening)
  | skip + 1, found, _ :: s => characters opening skip found s
  | 0, found, c :: s =>
    if c = '"' then .ok (found.reverse, s)
    else if c = '\\' then
      match escape opening s with
      | .error stop => .error stop
      | .ok (c, n) => characters opening n (c :: found) s
    else if c.toNat < 0x20 then .error (.problem .controlCharacter (c :: s))
    else characters opening 0 (char c :: found) s

def string : Reads Text := fun s =>
  (characters ('"' :: s) 0 [] s).map fun (cs, rest) => (Text.ofList cs, rest)

/-! ## Numbers -/

/-- The digits after a point, and the rest, if there are any. -/
def fraction? : List Char → Option (List Char × List Char)
  | '.' :: s =>
    let (digits, rest) := s.span Char.isDigit
    if digits.isEmpty then none else some (digits, rest)
  | _ => none

def exponent? : List Char → Option (Int × List Char)
  | c :: s =>
    if c = 'e' ∨ c = 'E' then
      let (sign, s) : Int × List Char := match s with
        | '-' :: s => (-1, s)
        | '+' :: s => (1, s)
        | s => (1, s)
      let (digits, rest) := s.span Char.isDigit
      if digits.isEmpty then none else some (sign * Digits.value digits, rest)
    else none
  | [] => none

/-- The digits before a point, and the rest. A zero is followed by no digit. -/
def whole? : List Char → Option (List Char × List Char)
  | c :: s =>
    if c = '0' then some (['0'], s)
    else if c.isDigit then
      let (digits, rest) := s.span Char.isDigit
      some (c :: digits, rest)
    else none
  | [] => none

/-- Reads the longest number. One with neither fraction nor exponent is an
integer. -/
def number : Reads Value := fun s =>
  let (negative, unsigned) := match s with
    | '-' :: t => (true, t)
    | _ => (false, s)
  match whole? unsigned with
  | none => .error (.problem .expectedValue s)
  | some (whole, rest) =>
    -- a point or an `e` without digits behind it is no part of the number
    let (fraction, rest) := ((fraction? rest).map fun (f, r) => (some f, r)).getD (none, rest)
    let (exponent, rest) := ((exponent? rest).map fun (e, r) => (some e, r)).getD (none, rest)
    if fraction.isNone && exponent.isNone then
      if integerLimit < whole.length then .error (.longInteger whole.length)
      else
        let n : Int := Digits.value whole
        .ok (.integer (if negative then -n else n), rest)
    else
      let places := fraction.getD []
      .ok (.decimal ⟨negative, Digits.value (whole ++ places), exponent.getD 0 - places.length⟩,
        rest)

/-! ## Values -/

/-- Reads items that are separated by commas, up to and with the closing
character, and puts them behind `found`, which is in reverse. Each item takes a
character at least, so fuel for every character is enough. -/
def items {α : Type} (close : Char) (item : Reads α) :
    (fuel : Nat) → (found : List α) → Reads (List α)
  | 0, _, s => .error (.problem .expectedComma s)
  | fuel + 1, found, s =>
    match item s with
    | .error stop => .error stop
    | .ok (a, rest) =>
      match skipBlanks rest with
      | [] => .error (.problem .expectedComma [])
      | c :: rest =>
        if c = close then .ok ((a :: found).reverse, rest)
        else if c = ',' then items close item fuel (a :: found) (skipBlanks rest)
        else .error (.problem .expectedComma (c :: rest))

def enclosed {α : Type} (close : Char) (item : Reads α) : Reads (List α) := fun s =>
  match skipBlanks s with
  -- the item says what is missing at the end of the text
  | [] => items close item 1 [] []
  | c :: rest =>
    if c = close then .ok ([], rest) else items close item (rest.length + 1) [] (c :: rest)

def member (value : Reads Value) : Reads (Text × Value)
  | '"' :: s =>
    match string s with
    | .error stop => .error stop
    | .ok (key, rest) =>
      match skipBlanks rest with
      | ':' :: rest => (value (skipBlanks rest)).map fun (v, rest) => ((key, v), rest)
      | rest => .error (.problem .expectedColon rest)
  | s => .error (.problem .expectedName s)

def valueWith (array object : Reads Value) : Reads Value
  | [] => .error (.problem .expectedValue [])
  | c :: rest =>
    if c = '"' then (string rest).map fun (s, rest) => (.string s, rest)
    else if c = '[' then array rest
    else if c = '\x7b' then object rest
    else
      match words.findSome? fun (word, v) => (after? word (c :: rest)).map (v, ·) with
      | some found => .ok found
      | none => number (c :: rest)

/-- Reads a value in which arrays and objects are nested up to a depth. -/
def value : (depth : Nat) → Reads Value
  | 0 => valueWith (fun _ => .error .tooDeep) (fun _ => .error .tooDeep)
  | depth + 1 =>
    valueWith
      (fun s => (enclosed ']' (value depth) s).map fun (vs, rest) => (.array vs, rest))
      (fun s => (enclosed '\x7d' (member (value depth)) s).map fun (ms, rest) => (.object ms, rest))

/-- Reads a text that is one value, nested up to a depth. -/
def readAll (depth : Nat) (text : List Char) : Except Stop Value :=
  if text.head? = some (Char.ofNat 0xFEFF) then .error (.problem .byteOrderMark text)
  else
    match value depth (skipBlanks text) with
    | .error stop => .error stop
    | .ok (v, rest) =>
      match skipBlanks rest with
      | [] => .ok v
      | rest => .error (.problem .extraData rest)

def Stop.error (text : List Char) : Stop → Error
  | .problem p rest => .malformed p (Position.after text (text.length - rest.length))
  | .longInteger digits => .longInteger digits
  | .tooDeep => .tooDeep

def parse (depth : Nat) (s : String) : Except Error Value :=
  (readAll depth s.toList).mapError (Stop.error s.toList)

end Json

end DebugMetadata
