/-!
# Digits

Decimal numbers are read. Hexadecimal numbers are written in lower-case digits,
filled up with zeros to a least width, and read in digits of either case.
-/

namespace DebugMetadata

namespace Digits

def value (ds : List Char) : Nat :=
  ds.foldl (fun n c => 10 * n + (c.toNat - '0'.toNat)) 0

end Digits

namespace Hex

def digits (width n : Nat) : List Char :=
  let ds := Nat.toDigits 16 n
  List.replicate (width - ds.length) '0' ++ ds

def text (width n : Nat) : String := String.ofList (digits width n)

/-- A number after `0x`, at least `width` characters in all. The sign of a
negative number comes first and counts as one of them. -/
def literal (width : Nat) : (n : Int) → String
  | .ofNat n => "0x" ++ text (width - 2) n
  | .negSucc n => "-0x" ++ text (width - 3) (n + 1)

def ofBytes (bs : List UInt8) : String :=
  String.ofList (bs.flatMap fun b => digits 2 b.toNat)

def value? (c : Char) : Option Nat :=
  if '0' ≤ c ∧ c ≤ '9' then some (c.toNat - '0'.toNat)
  else if 'a' ≤ c ∧ c ≤ 'f' then some (c.toNat - 'a'.toNat + 10)
  else if 'A' ≤ c ∧ c ≤ 'F' then some (c.toNat - 'A'.toNat + 10)
  else none

def isDigit (c : Char) : Bool := (value? c).isSome

theorem digits_one {n : Nat} (h : n < 16) : digits 1 n = [n.digitChar] := by
  rw [digits, Nat.toDigits_of_lt_base h]; rfl

theorem digits_succ (width n : Nat) :
    digits (width + 2) n = digits (width + 1) (n / 16) ++ [(n % 16).digitChar] := by
  unfold digits
  by_cases h : n < 16
  · rw [Nat.toDigits_of_lt_base h, Nat.div_eq_of_lt h, Nat.mod_eq_of_lt h, Nat.toDigits_zero]
    simp [List.replicate_succ']
  · rw [Nat.toDigits_of_base_le (by decide) (Nat.le_of_not_lt h)]
    simp

theorem value?_digitChar {n : Nat} (h : n < 16) : value? n.digitChar = some n := by
  have hall : ∀ n < 16, value? n.digitChar = some n := by decide
  exact hall n h

end Hex

end DebugMetadata
