import Mathlib
import DebugMetadata.Proofs.Bytes.Mask

/-!
# Scans of masks

Wherever a scan of a mask stands, the positions found are those of the set bits below it,
and their powers of two and what is left of the mask still make up the mask
(`Scan.Reached`). A round of the scan keeps this, and so does asking for any number of
positions (`reached_lowest`). A scan of a mask that is not negative runs out, one of a
negative mask never does.
-/

namespace DebugMetadata

namespace Bits

theorem isSet_natCast (m : Nat) : isSet m = m.testBit := rfl

theorem isSet_iff (mask : Int) (p : Nat) : isSet mask p = true ↔ mask >>> p % 2 = 1 := by
  cases mask with
  | ofNat m =>
    rw [isSet, Nat.testBit_eq_decide_div_mod_eq, decide_eq_true_eq, ← Nat.shiftRight_eq_div_pow,
      Int.ofNat_eq_natCast, ← Int.natCast_shiftRight]
    omega
  | negSucc m =>
    rw [isSet, Nat.testBit_eq_decide_div_mod_eq, Bool.not_eq_true', decide_eq_false_iff_not,
      ← Nat.shiftRight_eq_div_pow, Int.negSucc_shiftRight, Int.negSucc_eq]
    omega

/-! ## Rounds -/

namespace Scan

/-- The scan `s` of `mask` has come past the set bits at the positions `found`. -/
structure Reached (mask : Int) (found : List Nat) (s : Scan) : Prop where
  rest : s.rest = mask >>> s.position
  passed : found = (List.range s.position).filter (isSet mask)
  total : (found.map fun p => (2 : Int) ^ p).sum + s.rest * 2 ^ s.position = mask

variable {mask : Int} {found : List Nat} {s : Scan}

theorem reached_start (mask : Int) : Reached mask [] (start mask) where
  rest := (Int.shiftRight_zero mask).symm
  passed := rfl
  total := by simp [start]

theorem Reached.rest_moved (h : Reached mask found s) :
    s.moved.rest = mask >>> s.moved.position := by
  rw [moved, h.rest, Int.shiftRight_add]

theorem Reached.moved_set (h : Reached mask found s) (hs : s.rest % 2 = 1) :
    Reached mask (found ++ [s.position]) s.moved where
  rest := h.rest_moved
  passed := by
    have hp : isSet mask s.position = true := by rwa [isSet_iff, ← h.rest]
    rw [moved, List.range_succ, List.filter_append, ← h.passed, List.filter_singleton, hp]
    rfl
  total := by
    have hr : s.rest = 2 * s.moved.rest + 1 := by rw [Scan.rest_moved]; omega
    calc ((found ++ [s.position]).map fun p => (2 : Int) ^ p).sum + s.moved.rest * 2 ^ s.moved.position
        = (found.map fun p => (2 : Int) ^ p).sum + (2 * s.moved.rest + 1) * 2 ^ s.position := by
          simp only [List.map_append, List.map_cons, List.map_nil, List.sum_append,
            List.sum_singleton, moved]
          ring
      _ = mask := by rw [← hr, h.total]

theorem Reached.moved_clear (h : Reached mask found s) (hs : s.rest % 2 ≠ 1) :
    Reached mask found s.moved where
  rest := h.rest_moved
  passed := by
    have hp : isSet mask s.position = false := by rwa [Bool.eq_false_iff, Ne, isSet_iff, ← h.rest]
    rw [moved, List.range_succ, List.filter_append, ← h.passed, List.filter_singleton, hp]
    exact (List.append_nil found).symm
  total := by
    have hr : s.rest = 2 * s.moved.rest := by rw [Scan.rest_moved]; omega
    calc (found.map fun p => (2 : Int) ^ p).sum + s.moved.rest * 2 ^ s.moved.position
        = (found.map fun p => (2 : Int) ^ p).sum + 2 * s.moved.rest * 2 ^ s.position := by
          simp only [moved]
          ring
      _ = mask := by rw [← hr, h.total]

theorem Reached.next? (h : Reached mask found s) :
    (s.next? = none ∧ ∃ t, Reached mask found t ∧ t.rest = 0) ∨
      ∃ p t, s.next? = some (p, t) ∧ Reached mask (found ++ [p]) t := by
  -- on the rounds up to the next set bit, which find nothing
  fun_induction Scan.next? s with
  | case1 s hz => exact .inl ⟨rfl, s, h, hz⟩
  | case2 s _ hs => exact .inr ⟨s.position, s.moved, rfl, h.moved_set hs⟩
  | case3 s _ hs ih => exact ih (h.moved_clear hs)

theorem Reached.collect (h : Reached mask found s) (n : Nat) :
    ∃ t, Reached mask (s.collect n found.reverse) t ∧
      ((s.collect n found.reverse).length = found.length + n ∨
        (s.collect n found.reverse).length < found.length + n ∧ t.rest = 0) := by
  induction n generalizing found s with
  | zero => exact ⟨s, by rwa [Scan.collect, List.reverse_reverse], .inl (by simp [Scan.collect])⟩
  | succ n ih =>
    obtain ⟨hnone, t, ht, hz⟩ | ⟨p, t, hsome, ht⟩ := h.next?
    · have hc : s.collect (n + 1) found.reverse = found := by simp [Scan.collect, hnone]
      rw [hc]
      exact ⟨t, ht, .inr ⟨by omega, hz⟩⟩
    · have hc : s.collect (n + 1) found.reverse = t.collect n (found ++ [p]).reverse := by
        simp [Scan.collect, hsome]
      have hl : found.length + (n + 1) = (found ++ [p]).length + n := by simp; omega
      rw [hc, hl]
      exact ih ht

/-! ## Where a scan stands -/

theorem Reached.pairwise (h : Reached mask found s) : found.Pairwise (· < ·) :=
  h.passed ▸ List.pairwise_lt_range.filter _

theorem Reached.mem_iff (h : Reached mask found s) {p : Nat} :
    p ∈ found ↔ p < s.position ∧ isSet mask p = true := by
  rw [h.passed, List.mem_filter, List.mem_range]

theorem Reached.lt_of_isSet (h : Reached mask found s) (hz : s.rest = 0) {p : Nat}
    (hp : isSet mask p = true) : p < s.position := by
  refine Nat.lt_of_not_le fun hle => ?_
  have hshift : mask >>> p = 0 := by
    rw [← Nat.add_sub_of_le hle, Int.shiftRight_add, ← h.rest, hz, Int.zero_shiftRight]
  rw [isSet_iff, hshift] at hp
  cases hp

theorem Reached.rest_ne_zero (h : Reached mask found s) (hm : mask < 0) : s.rest ≠ 0 := by
  obtain ⟨m, rfl⟩ := Int.eq_negSucc_of_lt_zero hm
  rw [h.rest, Int.negSucc_shiftRight]
  exact Int.negSucc_ne_zero _

theorem Reached.prefix_positions {m : Nat} (h : Reached m found s) : found <+: positions m := by
  have hm : m < 2 ^ (s.position + (m.log2 + 1)) :=
    Nat.lt_of_lt_of_le Nat.lt_log2_self (Nat.pow_le_pow_right (by decide) (Nat.le_add_left ..))
  rw [h.passed, positions_eq_filter hm, List.range_add, List.filter_append]
  exact List.prefix_append ..

theorem rounds_start (mask : Int) (k : Nat) : moved^[k] (start mask) = ⟨k, mask >>> k⟩ := by
  induction k with
  | zero => rw [Function.iterate_zero_apply, start, Int.shiftRight_zero]
  | succ k ih => rw [Function.iterate_succ_apply', ih, moved, Int.shiftRight_add]

end Scan

open Scan

/-! ## What a scan gives -/

theorem reached_lowest (n : Nat) (mask : Int) :
    ∃ t, Reached mask (lowest n mask) t ∧
      ((lowest n mask).length = n ∨ (lowest n mask).length < n ∧ t.rest = 0) := by
  have h := (reached_start mask).collect n
  rwa [List.length_nil, Nat.zero_add] at h

theorem exists_rounds (m : Nat) : ∃ k, (Scan.moved^[k] (start m)).rest = 0 := by
  refine ⟨m, ?_⟩
  rw [rounds_start, ← Int.natCast_shiftRight, Nat.shiftRight_eq_zero m m Nat.lt_two_pow_self]
  rfl

theorem lowest_natCast (n m : Nat) : lowest n m = (positions m).take n := by
  obtain ⟨t, ht, hn | ⟨hn, hz⟩⟩ := reached_lowest n m
  · have h := List.prefix_iff_eq_take.mp ht.prefix_positions
    rwa [hn] at h
  · have hall : lowest n m = positions m := by
      refine ht.pairwise.eq_of_mem_iff (positions_pairwise m) fun p => ?_
      rw [ht.mem_iff, mem_positions, isSet_natCast]
      exact ⟨And.right, fun hp => ⟨ht.lt_of_isSet hz hp, hp⟩⟩
    rw [← hall, List.take_of_length_le (Nat.le_of_lt hn)]

theorem sum_positions (m : Nat) : ((positions m).map fun p => (2 : Int) ^ p).sum = m := by
  -- asked for one position more than there are, a scan runs out
  obtain ⟨t, ht, hn | ⟨-, hz⟩⟩ := reached_lowest ((positions m).length + 1) m
  · rw [lowest_natCast, List.take_of_length_le (Nat.le_add_right ..)] at hn
    exact absurd hn (Nat.ne_of_lt (Nat.lt_succ_self _))
  · have htotal := ht.total
    rwa [hz, Int.zero_mul, Int.add_zero, lowest_natCast,
      List.take_of_length_le (Nat.le_add_right ..)] at htotal

theorem length_lowest {mask : Int} (hm : mask < 0) (n : Nat) : (lowest n mask).length = n := by
  obtain ⟨t, ht, hn | ⟨-, hz⟩⟩ := reached_lowest n mask
  · exact hn
  · exact absurd hz (ht.rest_ne_zero hm)

/-- A scan of a mask that is not negative is over after some rounds. It gives the positions
of the set bits, each once and the lowest first, and their powers of two make up the mask.
A scan of a negative mask gives as many positions as are asked for, in ascending order, and
they are the lowest ones of set bits. -/
theorem scan_gives_set_positions (mask : Int) :
    (0 ≤ mask → (∃ k, (Scan.moved^[k] (start mask)).rest = 0) ∧
      (∀ n, lowest n mask = (positions mask.toNat).take n) ∧
      (positions mask.toNat).Pairwise (· < ·) ∧
      (∀ p, p ∈ positions mask.toNat ↔ isSet mask p = true) ∧
      ((positions mask.toNat).map fun p => (2 : Int) ^ p).sum = mask) ∧
    (mask < 0 → ∀ n, (lowest n mask).length = n ∧ (lowest n mask).Pairwise (· < ·) ∧
      (∀ p ∈ lowest n mask, isSet mask p = true) ∧
      ∀ p ∈ lowest n mask, ∀ q < p, isSet mask q = true → q ∈ lowest n mask) := by
  constructor
  · intro hm
    obtain ⟨m, rfl⟩ := Int.eq_ofNat_of_zero_le hm
    rw [Int.toNat_natCast]
    refine ⟨exists_rounds m, fun n => lowest_natCast n m, positions_pairwise m, fun p => ?_,
      sum_positions m⟩
    rw [mem_positions, isSet_natCast]
  · intro hm n
    obtain ⟨t, ht, -⟩ := reached_lowest n mask
    refine ⟨length_lowest hm n, ht.pairwise, fun p hp => (ht.mem_iff.mp hp).2,
      fun p hp q hq hset => ?_⟩
    exact ht.mem_iff.mpr ⟨Nat.lt_trans hq (ht.mem_iff.mp hp).1, hset⟩

/-- Three set bits, and a negative mask that has the bits 0 and 2 clear. -/
theorem scan_gives_three_positions :
    (0 : Int) ≤ 2 ^ 55 + 2 ^ 50 + 1 ∧ (∀ n, lowest n (2 ^ 55 + 2 ^ 50 + 1) = [0, 50, 55].take n) ∧
    (-6 : Int) < 0 ∧ lowest 4 (-6) = [1, 3, 4, 5] ∧
    ∀ q < 5, isSet (-6) q = true → q ∈ [1, 3, 4, 5] := by
  obtain ⟨-, htake, -⟩ := (scan_gives_set_positions (2 ^ 55 + 2 ^ 50 + 1)).1 (by decide)
  obtain ⟨-, -, -, hlowest⟩ := (scan_gives_set_positions (-6)).2 (by decide) 4
  have hthree : positions (2 ^ 55 + 2 ^ 50 + 1 : Int).toNat = [0, 50, 55] := by decide +kernel
  have hfour : lowest 4 (-6) = [1, 3, 4, 5] := by decide +kernel
  rw [hthree] at htake
  rw [hfour] at hlowest
  exact ⟨by decide, htake, by decide, hfour, hlowest 5 (by decide)⟩

end Bits

end DebugMetadata
