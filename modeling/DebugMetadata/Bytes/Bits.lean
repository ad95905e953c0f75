/-!
# Positions of set bits

A mask is a set of positions. A negative mask is read as an infinite two's
complement number, so all its positions from some point on are set. A scan goes
through the bits of a mask and hands out the positions of those that are set, for
as long as it is asked.
-/

namespace DebugMetadata

namespace Bits

def isSet : (mask : Int) → (p : Nat) → Bool
  | .ofNat m, p => m.testBit p
  | .negSucc m, p => !m.testBit p

/-- The positions of the set bits, lowest first. -/
def positions (mask : Nat) : List Nat :=
  (List.range (mask.log2 + 1)).filter mask.testBit

/-- A scan of a mask, from its lowest bit on: the position it has come to, and what is
left of the mask from there on. -/
structure Scan where
  position : Nat
  rest : Int
  deriving DecidableEq, Repr

namespace Scan

def start (mask : Int) : Scan := ⟨0, mask⟩

def moved (s : Scan) : Scan := ⟨s.position + 1, s.rest >>> (1 : Nat)⟩

theorem rest_moved (s : Scan) : s.moved.rest = s.rest / 2 := Int.shiftRight_eq_div_pow ..

/-- The next position of a set bit, and the scan behind it. A scan that has nothing left
is over. -/
def next? (s : Scan) : Option (Nat × Scan) :=
  if s.rest = 0 then none
  else if s.rest % 2 = 1 then some (s.position, s.moved)
  else s.moved.next?
termination_by s.rest.natAbs
decreasing_by rw [rest_moved]; omega

/-- What comes of asking a scan for `n` positions, put behind those of `found`, which are
in reverse. -/
def collect : (n : Nat) → (found : List Nat) → Scan → List Nat
  | 0, found, _ => found.reverse
  | n + 1, found, s =>
    match s.next? with
    | none => found.reverse
    | some (p, s) => collect n (p :: found) s

end Scan

/-- The lowest `n` positions of the set bits, or all of them if there are fewer. -/
def lowest (n : Nat) (mask : Int) : List Nat := (Scan.start mask).collect n []

theorem mem_positions {mask p : Nat} : p ∈ positions mask ↔ mask.testBit p = true := by
  rw [positions, List.mem_filter, List.mem_range]
  constructor
  · intro h
    exact h.2
  · intro h
    refine ⟨?_, h⟩
    have hp := Nat.ge_two_pow_of_testBit h
    have hm : mask ≠ 0 := by
      rintro rfl
      simp at h
    have := (Nat.le_log2 hm).2 hp
    omega

theorem positions_pairwise (mask : Nat) : (positions mask).Pairwise (· < ·) :=
  List.pairwise_lt_range.filter _

end Bits

end DebugMetadata
