import Mathlib
import DebugMetadata.Bytes.Block

/-!
# Bytes held at a place

`b.Holds offset bs` says that the bytes `bs` stand in the block at `offset`.
What a writer puts one after the other stands at consecutive places
(`holds_append`), and every reader that is pointed at such a place gets back
what was written there.
-/

namespace DebugMetadata

theorem length_flatMap_of_length {α : Type} {size : Nat} {f : α → List UInt8} {as : List α}
    (hf : ∀ a ∈ as, (f a).length = size) : (as.flatMap f).length = as.length * size := by
  induction as with
  | nil => simp
  | cons a as ih =>
    rw [List.flatMap_cons, List.length_append, hf a (List.mem_cons_self ..),
      ih fun a ha => hf a (List.mem_cons_of_mem _ ha), List.length_cons, Nat.succ_mul, Nat.add_comm]

theorem LittleEndian.bound_eq (w : Nat) : bound w = 256 ^ w := by
  induction w with
  | zero => rfl
  | succ w ih => rw [bound, ih, Nat.pow_succ, Nat.mul_comm]

namespace Block

def Holds (b : Block) (offset : Nat) (bs : List UInt8) : Prop := b.read? offset bs.length = some bs

variable {b : Block} {offset : Nat}

theorem holds_iff {bs : List UInt8} :
    b.Holds offset bs ↔ offset + bs.length ≤ b.size ∧ (b.toList.drop offset).take bs.length = bs :=
  read?_eq_some_iff

theorem holds_append {xs ys : List UInt8} :
    b.Holds offset (xs ++ ys) ↔ b.Holds offset xs ∧ b.Holds (offset + xs.length) ys := by
  rw [holds_iff, holds_iff, holds_iff, List.length_append, List.take_add, List.drop_drop]
  constructor
  · rintro ⟨hs, ht⟩
    have hx : ((b.toList.drop offset).take xs.length).length = xs.length := by
      simp only [List.length_take, List.length_drop, Array.length_toList]; omega
    obtain ⟨h1, h2⟩ := List.append_inj ht hx
    exact ⟨⟨by omega, h1⟩, ⟨by omega, h2⟩⟩
  · rintro ⟨⟨_, h1⟩, ⟨hs, h2⟩⟩
    rw [h1, h2]
    exact ⟨by omega, rfl⟩

theorem holds_of_toList {pre bs post : List UInt8} (h : b.toList = pre ++ bs ++ post) :
    b.Holds pre.length bs := by
  refine holds_iff.mpr ⟨?_, ?_⟩
  · rw [← Array.length_toList, h]
    simp only [List.length_append]; omega
  · rw [h, List.append_assoc, List.drop_left, List.take_left]

theorem holds_of_prefix {bs post : List UInt8} (h : b.toList = bs ++ post) : b.Holds 0 bs :=
  holds_of_toList (List.nil_append bs ▸ h)

theorem holds_of_cons {x : UInt8} {bs post : List UInt8} (h : b.toList = x :: bs ++ post) :
    b.Holds 1 bs :=
  holds_of_toList (show b.toList = [x] ++ bs ++ post from h)

theorem Holds.le_size {bs : List UInt8} (h : b.Holds offset bs) : offset + bs.length ≤ b.size :=
  (holds_iff.mp h).1

theorem Holds.read? {bs : List UInt8} {size : Nat} (h : b.Holds offset bs) (hl : bs.length = size) :
    b.read? offset size = some bs := by
  subst hl; exact h

theorem Holds.number? {width n : Nat} (h : b.Holds offset (LittleEndian.bytes width n))
    (hn : n < 256 ^ width) : b.number? offset width = some n := by
  unfold Block.number?
  rw [h.read? (LittleEndian.length_bytes width n), Option.map_some,
    LittleEndian.value_bytes (LittleEndian.bound_eq width ▸ hn)]

theorem Holds.slice {bs : List UInt8} (h : b.Holds offset bs) :
    (b.slice offset bs.length).toList = bs := by
  rw [toList_slice]; exact (holds_iff.mp h).2

theorem Holds.terminated? {bs : List UInt8} (h : b.Holds offset (bs ++ [0])) (hz : 0 ∉ bs) :
    b.terminated? offset = some bs := by
  obtain ⟨hs, ht⟩ := holds_iff.mp h
  obtain ⟨rest, hr⟩ : ∃ rest, b.toList.drop offset = bs ++ 0 :: rest := by
    refine ⟨(b.toList.drop offset).drop (bs ++ [0]).length, ?_⟩
    have := List.take_append_drop (bs ++ [0]).length (b.toList.drop offset)
    rw [ht] at this
    rw [← this]; simp
  have hw : (bs ++ 0 :: rest).takeWhile (· != 0) = bs := by
    rw [List.takeWhile_append_of_pos]
    · simp
    · intro x hx
      have : x ≠ 0 := fun e => hz (e ▸ hx)
      simpa using this
  rw [terminated?_eq, hr, if_pos (by simp), hw]

/-! ## Reads told by the bytes held -/

theorem holds_iff_prefix {bs : List UInt8} :
    b.Holds offset bs ↔ offset ≤ b.size ∧ bs <+: b.toList.drop offset := by
  rw [holds_iff, List.prefix_iff_eq_take, eq_comm (a := bs)]
  constructor
  · rintro ⟨hs, ht⟩
    exact ⟨by omega, ht⟩
  · rintro ⟨hs, ht⟩
    have hl := congrArg List.length ht
    have hb : b.toList.length = b.size := Array.length_toList
    rw [List.length_take, List.length_drop, hb] at hl
    exact ⟨by omega, ht⟩

theorem holds_of_prefix_drop {bs : List UInt8} (hne : bs ≠ [])
    (h : bs <+: b.toList.drop offset) : b.Holds offset bs := by
  refine holds_iff_prefix.mpr ⟨?_, h⟩
  have hl := h.length_le
  have hpos := List.length_pos_iff.mpr hne
  have hsize : b.toList.length = b.size := Array.length_toList
  rw [List.length_drop] at hl
  omega

theorem number?_isSome {width : Nat} :
    (b.number? offset width).isSome ↔ offset + width ≤ b.size := by
  rw [Block.number?, Option.isSome_map, read?_isSome]

theorem number?_eq_some_iff {width n : Nat} :
    b.number? offset width = some n ↔
      n < 256 ^ width ∧ b.Holds offset (LittleEndian.bytes width n) := by
  constructor
  · intro h
    obtain ⟨bs, hbs, rfl⟩ := Option.map_eq_some_iff.mp h
    have hl := length_of_read? hbs
    subst hl
    refine ⟨LittleEndian.bound_eq bs.length ▸ LittleEndian.value_lt bs, ?_⟩
    rw [LittleEndian.bytes_value]
    exact hbs
  · rintro ⟨hn, h⟩
    exact h.number? hn

theorem takeWhile_concat_prefix {bs : List UInt8} (hz : 0 ∈ bs) :
    bs.takeWhile (· != 0) ++ [0] <+: bs := by
  induction bs with
  | nil => cases hz
  | cons x bs ih =>
    by_cases hx : x = 0
    · simp [hx]
    · have hz : 0 ∈ bs := by simpa [Ne.symm hx] using hz
      rw [List.takeWhile_cons_of_pos (by simpa using hx), List.cons_append]
      exact List.cons_prefix_cons.mpr ⟨rfl, ih hz⟩

theorem terminated?_eq_some_iff {bs : List UInt8} :
    b.terminated? offset = some bs ↔ 0 ∉ bs ∧ b.Holds offset (bs ++ [0]) := by
  constructor
  · intro h
    rw [terminated?_eq] at h
    split at h
    · next hz =>
      cases h
      refine ⟨fun hm => by simpa using List.mem_takeWhile_imp hm, holds_iff_prefix.mpr ⟨?_, ?_⟩⟩
      · have hl := List.length_pos_of_mem hz
        rw [List.length_drop, Array.length_toList] at hl
        omega
      · exact takeWhile_concat_prefix hz
    · cases h
  · rintro ⟨hz, h⟩
    exact h.terminated? hz

end Block

end DebugMetadata
