import DebugMetadata.Image.Heap
import DebugMetadata.Proofs.Bytes.Compressed
import DebugMetadata.Proofs.Bytes.Held
import DebugMetadata.Proofs.Text.Strict

/-!
# Reading heaps

A text, a blob or a GUID that stands in its heap at the place of an index is
what a look-up of the index gives, and nothing else is. The order in which the
bytes of a GUID are stored shows in its text (`Guid.text_ofBytes`).
-/

namespace DebugMetadata

/-! ## GUIDs -/

namespace Hex

theorem digits_byte (b : UInt8) :
    digits 2 b.toNat = [(b.toNat / 16).digitChar, (b.toNat % 16).digitChar] := by
  have hb := b.toNat_lt
  rw [digits_succ, digits_one (by omega)]
  rfl

theorem digits_value (b : UInt8) (bs : List UInt8) :
    digits (2 * (bs.length + 1)) (LittleEndian.value (b :: bs)) =
      (b :: bs).reverse.flatMap fun b => digits 2 b.toNat := by
  induction bs generalizing b with
  | nil => simp
  | cons c bs ih =>
    have hb := b.toNat_lt
    -- the digits of the first byte are the last two
    obtain ⟨n, hn⟩ : ∃ n, LittleEndian.value (c :: bs) = n := ⟨_, rfl⟩
    have hhigh : (b.toNat + 256 * n) / 16 / 16 = n := by omega
    have hmiddle : (b.toNat + 256 * n) / 16 % 16 = b.toNat / 16 := by omega
    have hlow : (b.toNat + 256 * n) % 16 = b.toNat % 16 := by omega
    have hwidth : 2 * ((c :: bs).length + 1) = 2 * bs.length + 2 + 2 := by
      rw [List.length_cons]
      omega
    rw [LittleEndian.value_cons, hn, hwidth, digits_succ, digits_succ, hhigh, hmiddle, hlow,
      List.reverse_cons, List.flatMap_append, List.flatMap_singleton, digits_byte,
      List.append_assoc]
    exact congrArg (· ++ _) (hn ▸ ih c)

end Hex

namespace Guid

theorem swapped_swapped {bs : List UInt8} (h : bs.length = size) : swapped (swapped bs) = bs := by
  match bs, h with
  | [_, _, _, _, _, _, _, _, _, _, _, _, _, _, _, _], _ => rfl

theorem length_swapped {bs : List UInt8} (h : bs.length = size) : (swapped bs).length = size := by
  match bs, h with
  | [_, _, _, _, _, _, _, _, _, _, _, _, _, _, _, _], _ => rfl

theorem length_bytes (g : Guid) : g.bytes.length = size := by
  unfold bytes
  rw [length_swapped]
  rw [List.length_reverse, LittleEndian.length_bytes]

theorem toNat_number {bs : List UInt8} (h : (swapped bs).length = size) :
    (ofBytes bs).number.toNat = LittleEndian.value (swapped bs).reverse := by
  have hlt := LittleEndian.value_lt (swapped bs).reverse
  rw [List.length_reverse, h] at hlt
  rw [ofBytes, BitVec.toNat_ofNat]
  exact Nat.mod_eq_of_lt hlt

theorem ofBytes_bytes (g : Guid) : ofBytes g.bytes = g := by
  have hl : (LittleEndian.bytes size g.number.toNat).reverse.length = size := by
    rw [List.length_reverse, LittleEndian.length_bytes]
  have hn : g.number.toNat < LittleEndian.bound size := by
    rw [LittleEndian.bound_eq]; exact g.number.isLt
  unfold ofBytes bytes
  rw [swapped_swapped hl, List.reverse_reverse, LittleEndian.value_bytes hn, BitVec.ofNat_toNat,
    BitVec.setWidth_eq]

theorem bytes_ofBytes {bs : List UInt8} (h : bs.length = size) : (ofBytes bs).bytes = bs := by
  have hl := length_swapped h
  have hback := LittleEndian.bytes_value (swapped bs).reverse
  rw [List.length_reverse, hl] at hback
  rw [bytes, toNat_number hl, hback, List.reverse_reverse, swapped_swapped h]

/-- The bytes of the first three groups are stored from the last to the first. -/
theorem swapped_cons (a b c d e f g h : UInt8) (bs : List UInt8) :
    swapped (a :: b :: c :: d :: e :: f :: g :: h :: bs) =
      d :: c :: b :: a :: f :: e :: h :: g :: bs :=
  rfl

theorem text_ofBytes (a b c d e f g h i j k l m n o p : UInt8) :
    (ofBytes [a, b, c, d, e, f, g, h, i, j, k, l, m, n, o, p]).text =
      Hex.ofBytes [d, c, b, a] ++ "-" ++ Hex.ofBytes [f, e] ++ "-" ++ Hex.ofBytes [h, g] ++ "-" ++
        Hex.ofBytes [i, j] ++ "-" ++ Hex.ofBytes [k, l, m, n, o, p] := by
  have hswapped := swapped_cons a b c d e f g h [i, j, k, l, m, n, o, p]
  have hnumber := toNat_number (congrArg List.length hswapped)
  have hdigits := Hex.digits_value p [o, n, m, l, k, j, i, g, h, e, f, a, b, c, d]
  simp only [List.length_cons, List.length_nil, Nat.reduceAdd, Nat.reduceMul] at hdigits
  rw [← String.toList_inj, text, hnumber, hswapped]
  simp only [List.reverse_cons, List.reverse_nil, List.nil_append, List.cons_append] at hdigits ⊢
  rw [hdigits]
  simp [Hex.ofBytes, Hex.digits_byte, List.intercalate]

example : (ofBytes [0x56, 0x05, 0x11, 0xCC, 0x91, 0xA0, 0x38, 0x4D, 0x9F, 0xEC, 0x25, 0xAB, 0x9A,
    0x35, 0x1A, 0x6A]).text = "cc110556-a091-4d38-9fec-25ab9a351a6a" := by
  decide

end Guid

/-! ## Look-ups -/

namespace Heap

variable {heap : Block} {i : Nat}

theorem guid_of_holds {g : Guid} (hi : i ≠ 0) (h : heap.Holds ((i - 1) * Guid.size) g.bytes) :
    guid heap i = .ok (some g) := by
  unfold guid
  rw [if_neg hi, h.read? g.length_bytes]
  simp only
  rw [Guid.ofBytes_bytes]

theorem string_of_holds {s : String} (h : heap.Holds i (Utf8.encode s ++ [0]))
    (hz : '\x00' ∉ s.toList) : string heap i = .ok s := by
  unfold string
  rw [h.terminated? (Utf8.zero_not_mem_encode hz)]
  simp only
  rw [Utf8.decode_encode]

theorem blobLength_of_holds {w : Compressed.Width} {n : Nat}
    (h : heap.Holds i (Compressed.write w n)) (hn : n < w.bound) :
    blobLength heap i = .ok (n, i + w.size) := by
  -- the length is read from the first bytes, which may go on into the blob
  obtain ⟨hs, ht⟩ := Block.holds_iff.mp h
  have hw : w.size ≤ 4 := by cases w <;> decide
  have hl := Compressed.length_write w n
  obtain ⟨rest, hr⟩ : ∃ rest, (heap.slice i 4).toList = Compressed.write w n ++ rest := by
    refine ⟨((heap.toList.drop i).take 4).drop (Compressed.write w n).length, ?_⟩
    have hp : ((heap.toList.drop i).take 4).take (Compressed.write w n).length =
        Compressed.write w n := by
      rw [List.take_take, Nat.min_eq_left (by rw [hl]; exact hw)]; exact ht
    rw [Block.toList_slice]
    have := List.take_append_drop (Compressed.write w n).length ((heap.toList.drop i).take 4)
    rw [hp] at this
    exact this.symm
  unfold blobLength
  simp only [hr, Compressed.read_write hn, List.length_append, hl]
  rw [Nat.add_sub_cancel]

theorem blob_of_holds {w : Compressed.Width} {payload : List UInt8} (hi : i ≠ 0)
    (h : heap.Holds i (Compressed.write w payload.length ++ payload))
    (hn : payload.length < w.bound) :
    blob heap i = .ok payload := by
  obtain ⟨h1, h2⟩ := Block.holds_append.mp h
  rw [Compressed.length_write] at h2
  unfold blob
  rw [if_neg hi, blobLength_of_holds h1 hn]
  simp only
  rw [h2.read? rfl]

/-! ## What stands at an index -/

/-- A text without zero bytes stands at an index, and behind it a zero byte. -/
def HasText (heap : Block) (i : Nat) (s : String) : Prop :=
  '\x00' ∉ s.toList ∧ Utf8.encode s ++ [0] <+: heap.toList.drop i

/-- A blob stands behind its length, which is written at any width that holds it. -/
def HasBlob (heap : Block) (i : Nat) (payload : List UInt8) : Prop :=
  ∃ w : Compressed.Width, payload.length < w.bound ∧
    Compressed.write w payload.length ++ payload <+: heap.toList.drop i

/-- The sixteen bytes with a number, counted from one on, or fewer at the end of the heap. -/
def entry (heap : Block) (i : Nat) : List UInt8 := (heap.extract (16 * (i - 1)) (16 * i)).toList

def HasGuid (heap : Block) (i : Nat) (g : Guid) : Prop :=
  16 * i ≤ heap.size ∧ g.bytes = entry heap i

/-! ## What a look-up gives -/

theorem string_eq_ok_iff {s : String} : string heap i = .ok s ↔ HasText heap i s := by
  constructor
  · intro h
    unfold string at h
    split at h
    · cases h
    next bs hbs =>
    split at h
    next s' hs =>
      cases h
      obtain ⟨hz, hheld⟩ := Block.terminated?_eq_some_iff.mp hbs
      obtain rfl := Utf8.decode_eq_ok_iff.mp hs
      exact ⟨fun hm => hz ((Utf8.zero_mem_encode_iff _).mpr hm),
        (Block.holds_iff_prefix.mp hheld).2⟩
    · cases h
  · rintro ⟨hz, hp⟩
    exact string_of_holds (Block.holds_of_prefix_drop (by simp) hp) hz

theorem holds_of_blobLength {n start : Nat} (h : blobLength heap i = .ok (n, start)) :
    ∃ w : Compressed.Width, n < w.bound ∧ start = i + w.size ∧
      heap.Holds i (Compressed.write w n) := by
  unfold blobLength at h
  simp only at h
  split at h
  next length rest hread =>
    obtain ⟨rfl, rfl⟩ := Prod.mk.inj (Except.ok.inj h)
    obtain ⟨w, hn, hfront⟩ := Compressed.read_eq_ok_iff.mp hread
    have hl := Compressed.length_write w length
    have hstart : i + ((heap.slice i 4).toList.length - rest.length) = i + w.size := by
      rw [hfront, List.length_append, hl, Nat.add_sub_cancel]
    have hpre : Compressed.write w length <+: (heap.slice i 4).toList := ⟨rest, hfront.symm⟩
    rw [Block.toList_slice] at hpre
    have hne : Compressed.write w length ≠ [] := by
      cases w <;> simp [Compressed.write]
    exact ⟨w, hn, hstart, Block.holds_of_prefix_drop hne (hpre.trans (List.take_prefix _ _))⟩
  · cases h
  · cases h

theorem blob_eq_ok_iff (hi : i ≠ 0) {payload : List UInt8} :
    blob heap i = .ok payload ↔ HasBlob heap i payload := by
  constructor
  · intro h
    unfold blob at h
    rw [if_neg hi] at h
    split at h
    · cases h
    next n start hlength =>
    split at h
    next bs hr =>
      cases h
      obtain ⟨w, hn, rfl, hheld⟩ := holds_of_blobLength hlength
      obtain rfl := Block.length_of_read? hr
      have hboth : heap.Holds i (Compressed.write w payload.length ++ payload) := by
        rw [Block.holds_append, Compressed.length_write]
        exact ⟨hheld, hr⟩
      exact ⟨w, hn, (Block.holds_iff_prefix.mp hboth).2⟩
    · cases h
  · rintro ⟨w, hn, hp⟩
    exact blob_of_holds hi
      (Block.holds_of_prefix_drop (by cases w <;> simp [Compressed.write]) hp) hn

theorem length_entry (hi : i ≠ 0) (h : 16 * i ≤ heap.size) : (entry heap i).length = 16 := by
  rw [entry, Array.length_toList, Array.size_extract]
  omega

theorem guid_eq (hi : i ≠ 0) :
    guid heap i =
      if 16 * i ≤ heap.size then .ok (some (Guid.ofBytes (entry heap i)))
      else .error (.guidOutOfRange i) := by
  have hplace : (i - 1) * Guid.size = 16 * (i - 1) := Nat.mul_comm ..
  have hend : 16 * (i - 1) + Guid.size = 16 * i := by
    unfold Guid.size; omega
  rw [guid, if_neg hi, hplace, Block.read?, hend]
  by_cases h : 16 * i ≤ heap.size
  · rw [if_pos h, if_pos h, entry]
  · rw [if_neg h, if_neg h]

theorem guid_eq_ok_iff (hi : i ≠ 0) {o : Option Guid} :
    guid heap i = .ok o ↔ ∃ g, o = some g ∧ HasGuid heap i g := by
  rw [guid_eq hi]
  by_cases h : 16 * i ≤ heap.size
  · have hbytes := Guid.bytes_ofBytes (length_entry hi h)
    rw [if_pos h, Except.ok.injEq]
    constructor
    · rintro rfl
      exact ⟨_, rfl, h, hbytes⟩
    · rintro ⟨g, rfl, -, hg⟩
      rw [← hg, Guid.ofBytes_bytes]
  · rw [if_neg h]
    constructor
    · intro he
      cases he
    · rintro ⟨g, -, hle, -⟩
      exact absurd hle h

theorem exists_hasGuid_iff (hi : i ≠ 0) : (∃ g, HasGuid heap i g) ↔ 16 * i ≤ heap.size := by
  constructor
  · rintro ⟨g, hle, -⟩
    exact hle
  · intro hle
    exact ⟨_, hle, Guid.bytes_ofBytes (length_entry hi hle)⟩

end Heap

end DebugMetadata
