import DebugMetadata.Bytes.LittleEndian

/-!
# Blocks of bytes

A block is a file, or one stream of it, read at any position. A read is all or
nothing: it gives exactly the bytes that were asked for, or nothing when the
block ends too early. Everything else that is read from a block is built from
`read?` and `zeroFrom?`.
-/

namespace DebugMetadata

abbrev Block := Array UInt8

namespace Block

/-- The part of a block that starts at `offset` and has `size` bytes, cut short
at the end of the block. -/
def slice (b : Block) (offset size : Nat) : Block :=
  b.extract offset (offset + size)

def read? (b : Block) (offset size : Nat) : Option (List UInt8) :=
  if offset + size ≤ b.size then some (b.extract offset (offset + size)).toList else none

def number? (b : Block) (offset width : Nat) : Option Nat :=
  (b.read? offset width).map LittleEndian.value

/-- The position of the first zero byte among the `left` bytes from `i` on. -/
def scanZero (b : Block) : (left : Nat) → (i : Nat) → Option Nat
  | 0, _ => none
  | left + 1, i => if b[i]? = some 0 then some i else scanZero b left (i + 1)

def zeroFrom? (b : Block) (i : Nat) : Option Nat := b.scanZero (b.size - i) i

def terminated? (b : Block) (i : Nat) : Option (List UInt8) :=
  (b.zeroFrom? i).map fun stop => (b.extract i stop).toList

/-! ## Reads as parts of the list of bytes -/

theorem toList_slice (b : Block) (offset size : Nat) :
    (b.slice offset size).toList = (b.toList.drop offset).take size := by
  rw [slice, Array.toList_extract, List.extract_eq_take_drop, Nat.add_sub_cancel_left]

theorem read?_eq_some_iff {b : Block} {offset size : Nat} {bs : List UInt8} :
    b.read? offset size = some bs ↔
      offset + size ≤ b.size ∧ (b.toList.drop offset).take size = bs := by
  rw [← toList_slice, read?, slice]
  by_cases fits : offset + size ≤ b.size
  · rw [if_pos fits, Option.some.injEq]
    constructor
    · intro h
      exact ⟨fits, h⟩
    · intro h
      exact h.2
  · rw [if_neg fits]
    constructor
    · intro h
      cases h
    · intro h
      exact absurd h.1 fits

theorem read?_isSome {b : Block} {offset size : Nat} :
    (b.read? offset size).isSome ↔ offset + size ≤ b.size := by
  unfold read?
  split <;> simp_all

theorem length_of_read? {b : Block} {offset size : Nat} {bs : List UInt8}
    (h : b.read? offset size = some bs) : bs.length = size := by
  obtain ⟨fits, rfl⟩ := read?_eq_some_iff.1 h
  simp only [List.length_take, List.length_drop, Array.length_toList]
  omega

theorem read?_append {b : Block} {offset size : Nat} {bs : List UInt8} (more : Block)
    (h : b.read? offset size = some bs) : Block.read? (b ++ more) offset size = some bs := by
  obtain ⟨fits, rfl⟩ := read?_eq_some_iff.1 h
  refine read?_eq_some_iff.2 ⟨by rw [Array.size_append]; omega, ?_⟩
  rw [Array.toList_append, List.drop_append_of_le_length (by simp; omega),
    List.take_append_of_le_length (by simp; omega)]

theorem le_of_scanZero {b : Block} {left i stop : Nat} (h : b.scanZero left i = some stop) :
    i ≤ stop := by
  induction left generalizing i with
  | zero => cases h
  | succ left ih =>
    rw [scanZero] at h
    split at h
    · cases h
      exact Nat.le_refl _
    · have := ih h
      omega

theorem drop_take_scanZero (b : Block) (left i : Nat) (hl : b.size - i = left) :
    ((b.scanZero left i).map fun stop => (b.toList.drop i).take (stop - i)) =
      if 0 ∈ b.toList.drop i then some ((b.toList.drop i).takeWhile (· != 0)) else none := by
  induction left generalizing i with
  | zero =>
    have : b.toList.drop i = [] := List.drop_eq_nil_of_le (by simp; omega)
    simp [scanZero, this]
  | succ left ih =>
    have hi : i < b.size := by omega
    have hd : b.toList.drop i = b[i] :: b.toList.drop (i + 1) := by
      rw [List.drop_eq_getElem_cons (by simpa using hi), Array.getElem_toList]
    rw [scanZero, hd, Array.getElem?_eq_getElem hi]
    by_cases h : b[i] = 0
    · simp [h]
    · have hw : (b[i] :: b.toList.drop (i + 1)).takeWhile (· != 0) =
          b[i] :: (b.toList.drop (i + 1)).takeWhile (· != 0) := by
        simp [h]
      have step : ((b.scanZero left (i + 1)).map fun stop =>
          (b[i] :: b.toList.drop (i + 1)).take (stop - i)) =
          ((b.scanZero left (i + 1)).map fun stop =>
            (b.toList.drop (i + 1)).take (stop - (i + 1))).map (b[i] :: ·) := by
        rw [Option.map_map]
        refine Option.map_congr fun stop hs => ?_
        have := le_of_scanZero hs
        rw [Function.comp, ← List.take_succ_cons]
        congr 1
        omega
      rw [if_neg (by simpa using h), step, ih (i + 1) (by omega), hw]
      by_cases hz : 0 ∈ b.toList.drop (i + 1)
      · rw [if_pos hz, if_pos (List.mem_cons_of_mem _ hz), Option.map_some]
      · rw [if_neg hz, if_neg (by simp [Ne.symm h, hz]), Option.map_none]

/-- What is read up to a zero byte is all that comes before the first one. -/
theorem terminated?_eq (b : Block) (i : Nat) :
    b.terminated? i =
      if 0 ∈ b.toList.drop i then some ((b.toList.drop i).takeWhile (· != 0)) else none := by
  rw [← drop_take_scanZero b _ i rfl, terminated?, zeroFrom?]
  refine Option.map_congr fun stop hs => ?_
  rw [Array.toList_extract, List.extract_eq_take_drop]

end Block

end DebugMetadata
