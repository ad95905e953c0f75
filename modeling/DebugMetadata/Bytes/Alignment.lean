/-!
# Alignment

Rounding to a multiple of a block size. A positive block size rounds up, a
negative one rounds down: the remainder has the sign of the block size.
-/

namespace DebugMetadata

namespace Alignment

/-- The first multiple of `block` that is met when going from `n` in the
direction of `block`; nothing when `block` is zero. -/
def align? (n block : Int) : Option Int :=
  if block = 0 then none
  else if n.fmod block = 0 then some n
  else some (n + (block - n.fmod block))

/-- The size of a field of `n` bytes that is padded to four. -/
def padded (n : Nat) : Nat := (n + 3) / 4 * 4

theorem le_padded (n : Nat) : n ≤ padded n := by
  unfold padded; omega

theorem padded_lt (n : Nat) : padded n < n + 4 := by
  unfold padded; omega

theorem align?_four (n : Nat) : align? n 4 = some (padded n : Int) := by
  have hf : (n : Int).fmod 4 = (n : Int) % 4 := Int.fmod_eq_emod_of_nonneg _ (by decide)
  have hp : (padded n : Int) = (n + 3) / 4 * 4 := by simp [padded]
  rw [align?, hf, if_neg (by decide), hp]
  split
  · exact congrArg some (by omega)
  · exact congrArg some (by omega)

end Alignment

end DebugMetadata
