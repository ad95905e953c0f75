import Mathlib
import DebugMetadata.Bytes.Bits

/-!
# Masks of positions

The mask with given positions set, and the positions read off it again. The rank
of a set position is its place among the set positions (`getElem?_positions`).
-/

namespace DebugMetadata

namespace Bits

def mask (ps : List Nat) : Nat := ps.foldr (fun p m => 2 ^ p ||| m) 0

theorem testBit_mask (ps : List Nat) (p : Nat) : (mask ps).testBit p = decide (p ∈ ps) := by
  induction ps with
  | nil => simp [mask]
  | cons q ps ih =>
    rw [mask, List.foldr_cons, ← mask, Nat.testBit_or, Nat.testBit_two_pow, ih]
    simp only [List.mem_cons, Bool.decide_or, eq_comm]

theorem mask_lt {ps : List Nat} {n : Nat} (h : ∀ p ∈ ps, p < n) : mask ps < 2 ^ n := by
  refine Nat.lt_pow_two_of_testBit _ fun p hp => ?_
  rw [testBit_mask, decide_eq_false_iff_not]
  intro hm
  have := h p hm
  omega

theorem positions_mask {ps : List Nat} (h : ps.Pairwise (· < ·)) : positions (mask ps) = ps := by
  refine (positions_pairwise _).eq_of_mem_iff h fun p => ?_
  rw [mem_positions, testBit_mask, decide_eq_true_eq]

/-! ## Ranks -/

/-- How many positions below `p` are set. -/
def rank (mask p : Nat) : Nat := (List.range p).countP mask.testBit

theorem lt_of_testBit {mask n p : Nat} (h : mask < 2 ^ n) (hp : mask.testBit p = true) : p < n := by
  refine Nat.lt_of_not_le fun hn => ?_
  rw [Nat.testBit_lt_two_pow (Nat.lt_of_lt_of_le h (Nat.pow_le_pow_right (by decide) hn))] at hp
  cases hp

theorem positions_eq_filter {mask n : Nat} (h : mask < 2 ^ n) :
    positions mask = (List.range n).filter mask.testBit := by
  refine (positions_pairwise mask).eq_of_mem_iff (List.pairwise_lt_range.filter _) fun p => ?_
  rw [mem_positions, List.mem_filter, List.mem_range, iff_and_self]
  exact lt_of_testBit h

theorem length_positions {mask n : Nat} (h : mask < 2 ^ n) :
    (positions mask).length = rank mask n := by
  rw [positions_eq_filter h, rank, List.countP_eq_length_filter]

theorem getElem?_filter_range {f : Nat → Bool} {p n : Nat} (hn : p < n) (hp : f p = true) :
    ((List.range n).filter f)[(List.range p).countP f]? = some p := by
  obtain ⟨k, rfl⟩ := Nat.exists_eq_add_of_lt hn
  rw [Nat.add_assoc, List.range_add, List.filter_append, List.countP_eq_length_filter,
    List.getElem?_append_right (Nat.le_refl _), Nat.sub_self, List.range_succ_eq_map, List.map_cons,
    Nat.add_zero, List.filter_cons_of_pos hp, List.getElem?_cons_zero]

theorem getElem?_positions {mask p : Nat} (h : mask.testBit p = true) :
    (positions mask)[rank mask p]? = some p := by
  have hm : p ∈ (List.range (mask.log2 + 1)).filter mask.testBit := mem_positions.mpr h
  exact getElem?_filter_range (List.mem_range.mp (List.mem_filter.mp hm).1) h

end Bits

end DebugMetadata
