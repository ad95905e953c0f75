/-!
# Compressed unsigned integers

The high bits of the first byte tell the width: `0xxxxxxx` is one byte with 7
bits of value, `10xxxxxx` two bytes with 14, `110xxxxx` four bytes with 29. The
bytes that follow continue the value, most significant first. A value may be
written at any width that holds it.
-/

namespace DebugMetadata

namespace Compressed

inductive Fault where
  | endOfData
  | badLead (lead : UInt8)
  deriving DecidableEq, Repr

inductive Width where
  | one
  | two
  | four
  deriving DecidableEq, Repr

namespace Width

def size : Width → Nat
  | one => 1
  | two => 2
  | four => 4

def bound : Width → Nat
  | one => 0x80
  | two => 0x4000
  | four => 0x20000000

end Width

/-- The width that the first byte of an integer announces. -/
def width? (lead : UInt8) : Option Width :=
  if lead < 0x80 then some .one
  else if lead < 0xC0 then some .two
  else if lead < 0xE0 then some .four
  else none

def bigEndian (bs : List UInt8) : Nat :=
  bs.foldl (fun n b => 256 * n + b.toNat) 0

def read : List UInt8 → Except Fault (Nat × List UInt8)
  | [] => .error .endOfData
  | lead :: rest =>
    match width? lead with
    | none => .error (.badLead lead)
    | some .one => .ok (lead.toNat, rest)
    | some .two =>
      match rest with
      | a :: rest => .ok (bigEndian [lead, a] - 0x8000, rest)
      | [] => .error .endOfData
    | some .four =>
      match rest with
      | a :: b :: c :: rest => .ok (bigEndian [lead, a, b, c] - 0xC0000000, rest)
      | _ => .error .endOfData

def write : Width → Nat → List UInt8
  | .one, n => [UInt8.ofNat n]
  | .two, n => [UInt8.ofNat (0x80 + n / 0x100), UInt8.ofNat n]
  | .four, n =>
    [UInt8.ofNat (0xC0 + n / 0x1000000), UInt8.ofNat (n / 0x10000), UInt8.ofNat (n / 0x100),
      UInt8.ofNat n]

def narrowest (n : Nat) : Width :=
  if n < Width.one.bound then .one else if n < Width.two.bound then .two else .four

/-- Up to `count` integers off the front of a list, each with the number of bytes
read so far, and the fault that ended the reading, if one did. -/
def readMany : (count consumed : Nat) → List UInt8 → List (Nat × Nat) × Option Fault
  | 0, _, _ => ([], none)
  | k + 1, consumed, bs =>
    match read bs with
    | .error fault => ([], some fault)
    | .ok (n, rest) =>
      let position := consumed + (bs.length - rest.length)
      let (more, fault) := readMany k position rest
      ((n, position) :: more, fault)

/-! ## What is written is read back -/

theorem toNat_ofNat (n : Nat) : (UInt8.ofNat n).toNat = n % 256 := by
  simp [UInt8.toNat_ofNat']

theorem width?_eq (lead : UInt8) :
    width? lead =
      if lead.toNat < 0x80 then some .one
      else if lead.toNat < 0xC0 then some .two
      else if lead.toNat < 0xE0 then some .four
      else none := by
  simp [width?, UInt8.lt_iff_toNat_lt]

theorem read_write {w : Width} {n : Nat} (h : n < w.bound) (rest : List UInt8) :
    read (write w n ++ rest) = .ok (n, rest) := by
  cases w with
  | one =>
    simp only [Width.bound] at h
    have hl : (UInt8.ofNat n).toNat = n := by rw [toNat_ofNat]; omega
    simp [write, read, width?_eq, hl, show n < 128 by omega]
  | two =>
    simp only [Width.bound] at h
    have hl : (UInt8.ofNat (0x80 + n / 0x100)).toNat = 0x80 + n / 0x100 := by
      rw [toNat_ofNat]; omega
    simp only [write, List.cons_append, List.nil_append, read, width?_eq, hl, bigEndian, List.foldl,
      toNat_ofNat]
    rw [if_neg (by omega), if_pos (by omega)]
    simp only [Except.ok.injEq, Prod.mk.injEq, and_true]
    omega
  | four =>
    simp only [Width.bound] at h
    have hl : (UInt8.ofNat (0xC0 + n / 0x1000000)).toNat = 0xC0 + n / 0x1000000 := by
      rw [toNat_ofNat]; omega
    simp only [write, List.cons_append, List.nil_append, read, width?_eq, hl, bigEndian, List.foldl,
      toNat_ofNat]
    rw [if_neg (by omega), if_neg (by omega), if_pos (by omega)]
    simp only [Except.ok.injEq, Prod.mk.injEq, and_true]
    omega

end Compressed

end DebugMetadata
