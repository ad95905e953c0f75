/-!
# Binary floating point numbers of 64 bits

A finite positive number is `significand * 2 ^ exponent` with at most 53 bits of
significand and an exponent of at least -1074. `ofDecimal` rounds a decimal
number to the nearest of them, a tie to the even significand.
-/

namespace DebugMetadata

/-- A number in positional notation: `significand * 10 ^ exponent`, with a sign. -/
structure Decimal where
  negative : Bool
  significand : Nat
  exponent : Int
  deriving DecidableEq, Repr

inductive Magnitude where
  | finite (significand : Nat) (exponent : Int)
  | infinite
  deriving DecidableEq, Repr

namespace Binary64

def leastExponent : Int := -1074

def significandBound : Nat := 1 <<< 53

/-- The quotient nearest to `n / d`, a tie to the even one. -/
def roundDiv (n d : Nat) : Nat :=
  let q := n / d
  let twice := 2 * (n % d)
  if twice < d then q
  else if d < twice then q + 1
  else q + q % 2

def scaled (n d : Nat) (e : Int) : Nat × Nat :=
  match e with
  | .ofNat k => (n, d <<< k)
  | .negSucc k => (n <<< (k + 1), d)

/-- The exponent at which the fraction `n / d` has a significand of 53 bits, or
the least exponent if that is higher. -/
def exponentOf (n d : Nat) : Int :=
  let guess := (n.log2 : Int) - d.log2 - 52
  let (a, b) := scaled n d guess
  max leastExponent (if a / b < significandBound / 2 then guess - 1 else guess)

def ofFraction (n d : Nat) : Magnitude :=
  if n = 0 then .finite 0 leastExponent
  else
    let e := exponentOf n d
    let (a, b) := scaled n d e
    let m := roundDiv a b
    let (m, e) := if m = significandBound then (significandBound / 2, e + 1) else (m, e)
    if 971 < e then .infinite else .finite m e

/-- The number nearest to a decimal number without its sign. Decimals that lie
far outside the range are told apart by how long they are. -/
def ofDecimal (d : Decimal) : Magnitude :=
  let length : Int := (Nat.toDigits 10 d.significand).length
  if d.significand = 0 then .finite 0 leastExponent
  else if 400 < d.exponent + length then .infinite
  else if d.exponent + length < -400 then .finite 0 leastExponent
  else
    match d.exponent with
    | .ofNat k => ofFraction (d.significand * Nat.pow 10 k) 1
    | .negSucc k => ofFraction d.significand (Nat.pow 10 (k + 1))

end Binary64

end DebugMetadata
