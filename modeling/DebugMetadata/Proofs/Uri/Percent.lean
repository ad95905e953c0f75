import Mathlib
import DebugMetadata.Proofs.Text.Utf8
import DebugMetadata.Uri.Percent

/-!
# Decoded escapes

A decoded text starts with a slash exactly if a slash is written at its start, as
it is or as an escape (`slash_cons_prefix_unescape_iff`). No longer form of a
character is read as a slash. A text without percent signs stays as it is.
-/

namespace DebugMetadata

theorem eq_of_ofNat_eq_slash {n : Nat} (h : Char.ofNat n = '/') : n = 0x2F := by
  have hn : (Char.ofNat n).toNat = 0x2F := by rw [h]; rfl
  rw [Char.toNat_ofNat] at hn
  split at hn
  · exact hn
  · cases hn

namespace Utf8

/-! ## Bytes of a slash -/

theorem continued_eq_char {first low high : UInt8} {more bits taken : Nat}
    {bs : List UInt8} {c : Char}
    (h : continued first low high more bits taken bs = .char c) :
    ∃ n, c = Char.ofNat n ∧ bits * 64 ^ more ≤ n := by
  induction more generalizing low high bits taken bs with
  | zero =>
    rw [continued, Piece.char.injEq] at h
    exact ⟨bits, h.symm, by omega⟩
  | succ more ih =>
    cases bs with
    | nil => cases h
    | cons b bs =>
      rw [continued] at h
      split at h
      · obtain ⟨n, hc, hn⟩ := ih h
        refine ⟨n, hc, Nat.le_trans ?_ hn⟩
        rw [Nat.pow_succ', ← Nat.mul_assoc]
        exact Nat.mul_le_mul_right _ (Nat.le_add_right _ _)
      · cases h

/-- The least value of a character that starts with a byte. -/
def Lead.least (l : Lead) : Nat :=
  match l.more with
  | 0 => l.bits
  | more + 1 => (l.bits * 64 + (l.low.toNat - 0x80)) * 64 ^ more

theorem Lead.least_le {b : UInt8} {l : Lead} {bs : List UInt8} {c : Char}
    (h : continued b l.low l.high l.more l.bits 1 bs = .char c) :
    ∃ n, c = Char.ofNat n ∧ l.least ≤ n := by
  unfold least
  cases hm : l.more with
  | zero =>
    rw [hm] at h
    obtain ⟨n, hc, hn⟩ := continued_eq_char h
    rw [Nat.pow_zero, Nat.mul_one] at hn
    exact ⟨n, hc, hn⟩
  | succ more =>
    rw [hm] at h
    cases bs with
    | nil => cases h
    | cons b' bs =>
      rw [continued] at h
      split at h
      · rename_i hb
        obtain ⟨n, hc, hn⟩ := continued_eq_char h
        refine ⟨n, hc, Nat.le_trans (Nat.mul_le_mul_right _ ?_) hn⟩
        have hlow := UInt8.le_iff_toNat_le.mp hb.1
        omega
      · cases h

theorem Lead.least_ge {b : UInt8} {l : Lead} (hb : 0x80 ≤ b.toNat) (h : lead? b = some l) :
    0x80 ≤ l.least := by
  -- no longer form of a character stands for an ASCII character
  have hall : ∀ n < 256, 0x80 ≤ n → ∀ l ∈ lead? (UInt8.ofNat n), 0x80 ≤ l.least := by decide +kernel
  have hl := hall b.toNat (UInt8.toNat_lt b) hb l
  rw [UInt8.ofNat_toNat] at hl
  exact hl h

theorem pieceAt_ascii {b : UInt8} (hb : b.toNat < 0x80) (bs : List UInt8) :
    pieceAt b bs = .char (Char.ofNat b.toNat) := by
  rw [pieceAt_eq (by rw [lead?_eq, if_pos hb])]; rfl

theorem shown_pieceAt_eq_slash {b : UInt8} {bs : List UInt8} (h : (pieceAt b bs).shown = '/') :
    b = 0x2F := by
  by_cases hb : b.toNat < 0x80
  · rw [pieceAt_ascii hb] at h
    exact UInt8.toNat_inj.mp (eq_of_ofNat_eq_slash h)
  · cases hl : lead? b with
    | none =>
      unfold pieceAt at h
      rw [hl] at h
      exact absurd h (by show Char.ofNat 0xFFFD ≠ '/'; decide)
    | some l =>
      rw [pieceAt_eq hl] at h
      cases hp : continued b l.low l.high l.more l.bits 1 bs with
      | broken reason first size =>
        rw [hp] at h
        exact absurd h (by show Char.ofNat 0xFFFD ≠ '/'; decide)
      | char c =>
        rw [hp] at h
        obtain ⟨n, hc, hn⟩ := Lead.least_le hp
        have hslash := eq_of_ofNat_eq_slash (hc.symm.trans h)
        have hleast := Lead.least_ge (Nat.le_of_not_lt hb) hl
        omega

theorem toList_decodeLossy (bs : List UInt8) :
    (decodeLossy bs).toList = (pieces bs).map Piece.shown :=
  String.toList_ofList

theorem toList_decodeLossy_ascii {b : UInt8} (hb : b.toNat < 0x80) (bs : List UInt8) :
    (decodeLossy (b :: bs)).toList = Char.ofNat b.toNat :: (decodeLossy bs).toList := by
  have hsize : (Char.ofNat b.toNat).utf8Size = 1 := by
    have hn : (Char.ofNat b.toNat).val.toNat = b.toNat := by
      show (Char.ofNat b.toNat).toNat = b.toNat
      rw [Char.toNat_ofNat, if_pos (.inl (by omega))]
    rw [Char.utf8Size_eq_one_iff, UInt32.le_iff_toNat_le, hn]
    show b.toNat ≤ 127
    omega
  have hpieces : pieces (b :: bs) = pieceAt b bs :: pieces bs := by
    apply @pieces_cons b [] bs
    rw [List.nil_append, pieceAt_ascii hb]
    exact hsize
  rw [toList_decodeLossy, toList_decodeLossy, hpieces, pieceAt_ascii hb]; rfl

theorem head?_decodeLossy_cons (b : UInt8) (bs : List UInt8) :
    (decodeLossy (b :: bs)).toList.head? = some (pieceAt b bs).shown := by
  rw [toList_decodeLossy, pieces, scan, scan_found]; rfl

end Utf8

namespace Hex

theorem value?_cases {c : Char} {n : Nat} (h : value? c = some n) :
    n < 10 ∧ c.toNat = n + 48 ∨ 10 ≤ n ∧ n < 16 ∧ (c.toNat = n + 87 ∨ c.toNat = n + 55) := by
  have hle : ∀ a b : Char, a ≤ b ↔ a.toNat ≤ b.toNat := fun a b => by
    rw [Char.le_def, UInt32.le_iff_toNat_le]; rfl
  have h0 : '0'.toNat = 48 ∧ '9'.toNat = 57 ∧ 'a'.toNat = 97 ∧ 'f'.toNat = 102 ∧ 'A'.toNat = 65 ∧
      'F'.toNat = 70 := by decide
  simp only [value?, hle] at h
  split at h
  · rw [Option.some.injEq] at h; omega
  split at h
  · rw [Option.some.injEq] at h; omega
  split at h
  · rw [Option.some.injEq] at h; omega
  · cases h

end Hex

namespace Uri

open CodePoint (char)

/-! ## Escapes of a slash -/

def slashTexts : List (List CodePoint) :=
  [[char '/'], [char '%', char '2', char 'f'], [char '%', char '2', char 'F']]

theorem escapedByte?_eq_slash {s : List CodePoint} (h : escapedByte? s = some 0x2F) :
    ∃ rest, s = char '2' :: char 'f' :: rest ∨ s = char '2' :: char 'F' :: rest := by
  unfold escapedByte? at h
  split at h
  · next a b rest =>
    obtain ⟨high, hhigh, h⟩ := Option.bind_eq_some_iff.mp h
    obtain ⟨low, hlow, h⟩ := Option.bind_eq_some_iff.mp h
    have hvalue : (16 * high + low) % 256 = 0x2F := by
      rw [← UInt8.toNat_ofNat', Option.some.inj h]; rfl
    have hhigh := Hex.value?_cases hhigh
    have hlow := Hex.value?_cases hlow
    have ha : a = '2' := Char.toNat_inj.mp (show a.toNat = 50 by omega)
    have hb : b.toNat = 102 ∨ b.toNat = 70 := by omega
    rw [ha]
    refine ⟨rest, ?_⟩
    rcases hb with hb | hb
    · exact .inl (by rw [show b = 'f' from Char.toNat_inj.mp hb])
    · exact .inr (by rw [show b = 'F' from Char.toNat_inj.mp hb])
  · cases h

/-! ## Parts of a text -/

theorem scanParts_found (found : List Part) (skip : Nat) (s : List CodePoint) :
    scanParts found skip s = found.reverse ++ scanParts [] skip s := by
  induction s generalizing found skip with
  | nil => simp [scanParts]
  | cons c s ih =>
    have hpart : ∀ (p : Part) (skip : Nat),
        scanParts (p :: found) skip s = found.reverse ++ scanParts [p] skip s := by
      intro p skip
      rw [ih (p :: found), ih [p], List.reverse_cons, List.append_assoc]; rfl
    cases skip with
    | succ skip =>
      rw [scanParts, scanParts, ih]
    | zero =>
      unfold scanParts
      split
      · cases escapedByte? s with
        | some b => exact hpart _ 2
        | none => exact hpart _ 0
      · split
        · exact hpart _ 0
        · exact hpart _ 0

theorem scanParts_slash {t : List CodePoint} (ht : t ∈ slashTexts) (rest : List CodePoint) :
    scanParts [] 0 (t ++ rest) = .byte 0x2F :: scanParts [] 0 rest := by
  unfold slashTexts at ht
  simp only [List.mem_cons, List.not_mem_nil, or_false] at ht
  rcases ht with rfl | rfl | rfl
  · exact scanParts_found [.byte 0x2F] 0 rest
  · exact scanParts_found [.byte 0x2F] 0 rest
  · exact scanParts_found [.byte 0x2F] 0 rest

theorem scanParts_cons (c : CodePoint) (s : List CodePoint) :
    ∃ p skip, scanParts [] 0 (c :: s) = p :: scanParts [] skip s ∧
    (p = .byte 0x2F → ∃ t ∈ slashTexts, ∃ rest, c :: s = t ++ rest) ∧ p ≠ .kept (char '/') := by
  have hread : ∀ p skip, scanParts [] 0 (c :: s) = scanParts [p] skip s →
      scanParts [] 0 (c :: s) = p :: scanParts [] skip s :=
    fun p skip h => h.trans (scanParts_found [p] skip s)
  by_cases hc : c = char '%'
  · cases hb : escapedByte? s with
    | some b =>
      refine ⟨.byte b, 2, hread _ _ (by rw [scanParts, if_pos hc, hb]), ?_, Part.noConfusion⟩
      intro hp
      obtain ⟨rest, hs⟩ := escapedByte?_eq_slash (hb.trans (congrArg some (Part.byte.inj hp)))
      rw [hc]
      rcases hs with rfl | rfl
      · exact ⟨[char '%', char '2', char 'f'], by simp [slashTexts], rest, rfl⟩
      · exact ⟨[char '%', char '2', char 'F'], by simp [slashTexts], rest, rfl⟩
    | none =>
      refine ⟨.byte 0x25, 0, hread _ _ (by rw [scanParts, if_pos hc, hb]), ?_, Part.noConfusion⟩
      intro hp
      exact absurd hp (by decide)
  by_cases hascii : c.toNat < 0x80
  · refine ⟨.byte (UInt8.ofNat c.toNat), 0,
      hread _ _ (by rw [scanParts, if_neg hc, if_pos hascii]), ?_, Part.noConfusion⟩
    intro hp
    have hn := congrArg UInt8.toNat (Part.byte.inj hp)
    rw [UInt8.toNat_ofNat', Nat.mod_eq_of_lt (by omega)] at hn
    rw [show c = char '/' from CodePoint.toNat_inj.mp hn]
    exact ⟨[char '/'], by simp [slashTexts], s, rfl⟩
  · refine ⟨.kept c, 0, hread _ _ (by rw [scanParts, if_neg hc, if_neg hascii]),
      Part.noConfusion, ?_⟩
    intro hp
    rw [Part.kept.inj hp] at hascii
    exact hascii (by decide)

/-! ## Decoded texts -/

/-- The text of bytes that are not decoded yet and of what follows them. -/
def textOf (r : List UInt8 × List CodePoint) : List CodePoint :=
  (Utf8.decodeLossy r.1).toList.map char ++ r.2

theorem unescape_eq (s : List CodePoint) :
    unescape s = textOf ((scanParts [] 0 s).foldr extendDecoded ([], [])) := rfl

theorem textOf_byte {b : UInt8} (hb : b.toNat < 0x80) (r : List UInt8 × List CodePoint) :
    textOf (extendDecoded (.byte b) r) = char (Char.ofNat b.toNat) :: textOf r := by
  unfold textOf extendDecoded
  rw [Utf8.toList_decodeLossy_ascii hb]; rfl

theorem textOf_kept (c : CodePoint) (r : List UInt8 × List CodePoint) :
    textOf (extendDecoded (.kept c) r) = c :: textOf r := rfl

theorem head?_textOf_eq_slash {p : Part} {r : List UInt8 × List CodePoint}
    (h : (textOf (extendDecoded p r)).head? = some (char '/')) :
    p = .byte 0x2F ∨ p = .kept (char '/') := by
  cases p with
  | byte b =>
    unfold textOf extendDecoded at h
    rw [List.head?_append, List.head?_map, Utf8.head?_decodeLossy_cons] at h
    have hshown := CodePoint.char.inj (Option.some.inj h)
    exact .inl (congrArg Part.byte (Utf8.shown_pieceAt_eq_slash hshown))
  | kept c => exact .inr (congrArg Part.kept (Option.some.inj h))

theorem unescape_slash {t : List CodePoint} (ht : t ∈ slashTexts) (rest : List CodePoint) :
    unescape (t ++ rest) = char '/' :: unescape rest := by
  rw [unescape_eq, scanParts_slash ht, List.foldr_cons, textOf_byte (by decide)]; rfl

theorem head?_unescape_eq_slash {s : List CodePoint} (h : (unescape s).head? = some (char '/')) :
    ∃ t ∈ slashTexts, ∃ rest, s = t ++ rest := by
  cases s with
  | nil => cases h
  | cons c s =>
    obtain ⟨p, skip, hparts, hbyte, hkept⟩ := scanParts_cons c s
    rw [unescape_eq, hparts, List.foldr_cons] at h
    rcases head?_textOf_eq_slash h with hp | hp
    · exact hbyte hp
    · exact absurd hp hkept

theorem slash_cons_prefix_unescape_iff {cs s : List CodePoint} : char '/' :: cs <+: unescape s ↔
    ∃ t ∈ slashTexts, ∃ rest, s = t ++ rest ∧ cs <+: unescape rest := by
  constructor
  · intro h
    have hhead : (unescape s).head? = some (char '/') := by
      obtain ⟨behind, h⟩ := h
      rw [← h]; rfl
    obtain ⟨t, ht, rest, rfl⟩ := head?_unescape_eq_slash hhead
    rw [unescape_slash ht, List.cons_prefix_cons] at h
    exact ⟨t, ht, rest, rfl, h.2⟩
  · rintro ⟨t, ht, rest, rfl, h⟩
    rw [unescape_slash ht, List.cons_prefix_cons]
    exact ⟨rfl, h⟩

theorem slashes_prefix_unescape_iff {p : List CodePoint} :
    [char '/', char '/'] <+: unescape p ↔ ∃ a ∈ slashTexts, ∃ b ∈ slashTexts, a ++ b <+: p := by
  simp only [slash_cons_prefix_unescape_iff, List.nil_prefix, and_true]
  constructor
  · rintro ⟨a, ha, _, rfl, b, hb, rest, rfl⟩
    exact ⟨a, ha, b, hb, rest, List.append_assoc ..⟩
  · rintro ⟨a, ha, b, hb, rest, rfl⟩
    exact ⟨a, ha, b ++ rest, List.append_assoc .., b, hb, rest, rfl⟩

/-! ## Texts without escapes -/

theorem unescape_cons {c : CodePoint} (hc : c ≠ char '%') (s : List CodePoint) :
    unescape (c :: s) = c :: unescape s := by
  rw [unescape_eq, unescape_eq]
  by_cases hascii : c.toNat < 0x80
  · have hn : (UInt8.ofNat c.toNat).toNat = c.toNat := by
      rw [UInt8.toNat_ofNat']
      omega
    have hparts : scanParts [] 0 (c :: s) = .byte (UInt8.ofNat c.toNat) :: scanParts [] 0 s := by
      rw [scanParts, if_neg hc, if_pos hascii, scanParts_found]; rfl
    cases c with
    | char c =>
      rw [hparts, List.foldr_cons, textOf_byte (by omega), hn, CodePoint.toNat_char,
        Char.ofNat_toNat]
    | surrogate n =>
      rw [CodePoint.toNat] at hascii
      omega
  · have hparts : scanParts [] 0 (c :: s) = .kept c :: scanParts [] 0 s := by
      rw [scanParts, if_neg hc, if_neg hascii, scanParts_found]; rfl
    rw [hparts, List.foldr_cons, textOf_kept]

theorem unescape_of_not_mem {s : List CodePoint} (h : char '%' ∉ s) : unescape s = s := by
  induction s with
  | nil => rfl
  | cons c s ih =>
    rw [List.mem_cons, not_or] at h
    rw [unescape_cons (Ne.symm h.1), ih h.2]

end Uri

end DebugMetadata
