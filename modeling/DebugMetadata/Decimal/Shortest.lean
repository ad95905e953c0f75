import DebugMetadata.Decimal.Binary64

/-!
# Shortest decimals

The text of a binary floating point number is the decimal with the fewest digits
that rounds to it, and of those the one nearest to it, a tie to the even digit.
A decimal with `n` digits that rounds to the number exists only if one of the two
neighbours of the number on the grid of `n` digits does.
-/

namespace DebugMetadata

namespace Shortest

/-- The decimals that round to `significand * 2 ^ exponent`: those between two
ends, given in quarters of `2 ^ exponent`. The ends belong to it if the
significand is even. -/
structure Interval where
  significand : Nat
  exponent : Int
  deriving Repr

namespace Interval

/-- The upper end, halfway to the next number. -/
def upper (i : Interval) : Nat := 4 * i.significand + 2

/-- The lower end, halfway to the number before, which is only half as far away
when the significand is a power of two. -/
def lower (i : Interval) : Nat :=
  if i.significand = Binary64.significandBound / 2 ∧ Binary64.leastExponent < i.exponent then
    4 * i.significand - 1
  else 4 * i.significand - 2

def quarters (i : Interval) (k : Int) : Nat × Nat :=
  let (n, d) := match k with
    | .ofNat k => (Nat.pow 10 k, 1)
    | .negSucc k => (1, Nat.pow 10 (k + 1))
  let (n, d) := Binary64.scaled n d i.exponent
  (4 * n, d)

/-- Whether `t * 10 ^ k` rounds to the number. -/
def holds (i : Interval) (t : Nat) (k : Int) : Bool :=
  let (n, d) := i.quarters k
  if i.significand % 2 = 0 then i.lower * d ≤ t * n && t * n ≤ i.upper * d
  else i.lower * d < t * n && t * n < i.upper * d

/-- The greatest `t` with `t * 10 ^ k` at most the number, and twice what is left
over, compared with one unit. -/
def below (i : Interval) (k : Int) : Nat × Ordering :=
  let (n, d) := i.quarters k
  let number := 4 * i.significand * d
  (number / n, compare (2 * (number % n)) n)

/-- The neighbour of the number on the grid of `10 ^ k` that rounds to it, the
nearer one if both do. -/
def neighbour? (i : Interval) (k : Int) : Option Nat :=
  let (t, side) := i.below k
  match i.holds t k, i.holds (t + 1) k with
  | false, false => none
  | true, false => some t
  | false, true => some (t + 1)
  | true, true =>
    match side with
    | .lt => some t
    | .gt => some (t + 1)
    | .eq => some (t + t % 2)

/-- The place of the first digit: the number is at least `10 ^ k` and less than
`10 ^ (k + 1)`. -/
def leading (i : Interval) : Int :=
  -- 30103 / 100000 is the decimal logarithm of two, so the guess is off by one at most
  let guess := (i.significand.log2 + i.exponent) * 30103 / 100000
  if (i.below (guess + 1)).1 = 0 then
    if (i.below guess).1 = 0 then guess - 1 else guess
  else guess + 1

/-- The decimal on the first grid from `10 ^ k` down that has one for the number. -/
def search (i : Interval) : (grids : Nat) → (k : Int) → Nat × Int
  | 0, k => ((i.below k).1, k)
  | grids + 1, k =>
    match i.neighbour? k with
    | some t => (t, k)
    | none => search i grids (k - 1)

end Interval

/-- The shortest decimal of `significand * 2 ^ exponent`, which is not zero. Seventeen
digits always suffice. -/
def decimal (significand : Nat) (exponent : Int) : Nat × Int :=
  let i : Interval := ⟨significand, exponent⟩
  i.search 17 i.leading

/-- How a decimal is laid out. The exponent is written out for numbers below
`10 ^ positionalFrom` and from `10 ^ scientificFrom` up. -/
structure Layout where
  positionalFrom : Int
  scientificFrom : Int
  exponentDigits : Nat
  deriving Repr

def exponentText (layout : Layout) (e : Int) : List Char :=
  let ds := Nat.toDigits 10 e.natAbs
  (if e < 0 then '-' else '+') :: List.replicate (layout.exponentDigits - ds.length) '0' ++ ds

/-- The digits with the point after the first `place` of them, and with at least
one digit on each side of the point. -/
def positional (ds : List Char) (place : Int) : List Char :=
  match place with
  | .negSucc k => '0' :: '.' :: List.replicate (k + 1) '0' ++ ds
  | .ofNat p =>
    let whole := ds.take p ++ List.replicate (p - ds.length) '0'
    let fraction := ds.drop p
    (if whole.isEmpty then ['0'] else whole) ++ '.' ::
      (if fraction.isEmpty then ['0'] else fraction)

def layOut (layout : Layout) (t : Nat) (k : Int) : List Char :=
  let ds := ((Nat.toDigits 10 t).reverse.dropWhile (· == '0')).reverse
  let place := k + (Nat.toDigits 10 t).length
  if layout.positionalFrom < place ∧ place ≤ layout.scientificFrom then positional ds place
  else
    let tail := ds.drop 1
    ds.take 1 ++ (if tail.isEmpty then [] else '.' :: tail) ++ 'e' ::
      exponentText layout (place - 1)

def text (layout : Layout) : Magnitude → String
  | .infinite => "inf"
  | .finite 0 _ => "0.0"
  | .finite m e =>
    let (t, k) := decimal m e
    String.ofList (layOut layout t k)

end Shortest

end DebugMetadata
