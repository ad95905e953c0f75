import DebugMetadata.Proofs.Result
import DebugMetadata.Proofs.Text.Utf8

/-!
# Bytes of a text

What is read as a character is the one encoding of this character. So a list of
bytes is decoded to a text exactly if it is the encoding of the text
(`decode_eq_ok_iff`).
-/

namespace DebugMetadata

namespace Utf8

/-! ## One character -/

section
variable {first low high : UInt8} {more bits taken : Nat} {bs : List UInt8} {c : Char}

theorem eq_of_continued_zero (h : continued first low high 0 bits taken bs = .char c) :
    c = Char.ofNat bits := by
  rw [continued, Piece.char.injEq] at h
  exact h.symm

theorem exists_of_continued_succ (hl : 0x80 ≤ low.toNat) (hh : high.toNat ≤ 0xBF)
    (h : continued first low high (more + 1) bits taken bs = .char c) :
    ∃ n rest, bs = UInt8.ofNat (n + 0x80) :: rest ∧ n < 64 ∧ low.toNat ≤ n + 0x80 ∧
    n + 0x80 ≤ high.toNat ∧
      continued first 0x80 0xBF more (bits * 64 + n) (taken + 1) rest = .char c := by
  cases bs with
  | nil => cases h
  | cons b bs =>
    rw [continued] at h
    split at h
    · next hb =>
      have hlow := UInt8.le_iff_toNat_le.mp hb.1
      have hhigh := UInt8.le_iff_toNat_le.mp hb.2
      have hn : b.toNat - 0x80 + 0x80 = b.toNat := by omega
      refine ⟨b.toNat - 0x80, bs, ?_, by omega, by omega, by omega, h⟩
      rw [hn, UInt8.ofNat_toNat]
    · cases h

theorem exists_of_continued_next
    (h : continued first 0x80 0xBF (more + 1) bits taken bs = .char c) :
    ∃ n rest, bs = UInt8.ofNat (n + 0x80) :: rest ∧ n < 64 ∧
      continued first 0x80 0xBF more (bits * 64 + n) (taken + 1) rest = .char c := by
  obtain ⟨n, rest, hbs, hn, -, -, h⟩ := exists_of_continued_succ (by decide) (by decide) h
  exact ⟨n, rest, hbs, hn, h⟩

end

theorem exists_lead_of_pieceAt {b : UInt8} {bs : List UInt8} {c : Char}
    (h : pieceAt b bs = .char c) :
    ∃ lead, lead? b = some lead ∧
      continued b lead.low lead.high lead.more lead.bits 1 bs = .char c := by
  unfold pieceAt at h
  cases hl : lead? b with
  | none =>
    rw [hl] at h
    cases h
  | some lead =>
    rw [hl] at h
    exact ⟨lead, rfl, h⟩

def WrittenAt (b : UInt8) (bs : List UInt8) (c : Char) : Prop :=
  ∃ taken rest, bs = taken ++ rest ∧ String.utf8EncodeChar c = b :: taken

section
variable {b : UInt8} {bs : List UInt8} {c : Char}

theorem ofNat_sub_add {k : Nat} (h : k ≤ b.toNat) : UInt8.ofNat (b.toNat - k + k) = b := by
  rw [Nat.sub_add_cancel h, UInt8.ofNat_toNat]

theorem writtenAt_one (hb : b.toNat < 0x80) (h : continued b 0x80 0xBF 0 b.toNat 1 bs = .char c) :
    WrittenAt b bs c := by
  obtain rfl := eq_of_continued_zero h
  refine ⟨[], bs, rfl, ?_⟩
  rw [utf8EncodeChar_one hb, UInt8.ofNat_toNat]

theorem writtenAt_two (hb : 0xC2 ≤ b.toNat) (hb' : b.toNat < 0xE0)
    (h : continued b 0x80 0xBF 1 (b.toNat - 0xC0) 1 bs = .char c) : WrittenAt b bs c := by
  obtain ⟨n₁, rest, rfl, h₁, h⟩ := exists_of_continued_next h
  obtain rfl := eq_of_continued_zero h
  refine ⟨[UInt8.ofNat (n₁ + 0x80)], rest, rfl, ?_⟩
  rw [utf8EncodeChar_two (by omega) (by omega) h₁, ofNat_sub_add (by omega)]

theorem writtenAt_three (hb : 0xE0 ≤ b.toNat) (hb' : b.toNat < 0xF0)
    (h : continued b (if b.toNat = 0xE0 then 0xA0 else 0x80)
      (if b.toNat = 0xED then 0x9F else 0xBF) 2 (b.toNat - 0xE0) 1 bs =
      .char c) : WrittenAt b bs c := by
  obtain ⟨n₁, bs', rfl, h₁, hlow, hhigh, h⟩ :=
    exists_of_continued_succ (by split <;> decide) (by split <;> decide) h
  obtain ⟨n₂, rest, rfl, h₂, h⟩ := exists_of_continued_next h
  obtain rfl := eq_of_continued_zero h
  refine ⟨[UInt8.ofNat (n₁ + 0x80), UInt8.ofNat (n₂ + 0x80)], rest, rfl, ?_⟩
  have hoverlong : 0x20 ≤ (b.toNat - 0xE0) * 64 + n₁ := by
    by_cases hfirst : b.toNat = 0xE0
    · rw [if_pos hfirst] at hlow
      have : 0xA0 ≤ n₁ + 0x80 := hlow
      omega
    · omega
  have hsurrogate : (b.toNat - 0xE0) * 64 + n₁ < 0x360 ∨ 0x37F < (b.toNat - 0xE0) * 64 + n₁ := by
    by_cases hlast : b.toNat = 0xED
    · rw [if_pos hlast] at hhigh
      have : n₁ + 0x80 ≤ 0x9F := hhigh
      omega
    · omega
  rw [utf8EncodeChar_three (by omega) h₁ h₂ hoverlong hsurrogate, ofNat_sub_add hb]

theorem writtenAt_four (hb : 0xF0 ≤ b.toNat) (hb' : b.toNat < 0xF5)
    (h : continued b (if b.toNat = 0xF0 then 0x90 else 0x80)
      (if b.toNat = 0xF4 then 0x8F else 0xBF) 3 (b.toNat - 0xF0) 1 bs =
      .char c) : WrittenAt b bs c := by
  obtain ⟨n₁, bs', rfl, h₁, hlow, hhigh, h⟩ :=
    exists_of_continued_succ (by split <;> decide) (by split <;> decide) h
  obtain ⟨n₂, bs'', rfl, h₂, h⟩ := exists_of_continued_next h
  obtain ⟨n₃, rest, rfl, h₃, h⟩ := exists_of_continued_next h
  obtain rfl := eq_of_continued_zero h
  refine ⟨[UInt8.ofNat (n₁ + 0x80), UInt8.ofNat (n₂ + 0x80), UInt8.ofNat (n₃ + 0x80)],
    rest, rfl, ?_⟩
  -- the ranges of the second byte depend on the first one
  have hoverlong : 0x10 ≤ (b.toNat - 0xF0) * 64 + n₁ := by
    by_cases hfirst : b.toNat = 0xF0
    · rw [if_pos hfirst] at hlow
      have : 0x90 ≤ n₁ + 0x80 := hlow
      omega
    · omega
  have hlast : (b.toNat - 0xF0) * 64 + n₁ < 0x110 := by
    by_cases hlast : b.toNat = 0xF4
    · rw [if_pos hlast] at hhigh
      have : n₁ + 0x80 ≤ 0x8F := hhigh
      omega
    · omega
  rw [utf8EncodeChar_four (by omega) h₁ h₂ h₃ hoverlong hlast, ofNat_sub_add hb]

theorem writtenAt_of_pieceAt (h : pieceAt b bs = .char c) : WrittenAt b bs c := by
  obtain ⟨lead, hl, h⟩ := exists_lead_of_pieceAt h
  rw [lead?_eq] at hl
  split at hl
  · next hb =>
    obtain rfl := Option.some.inj hl
    exact writtenAt_one hb h
  split at hl
  · cases hl
  split at hl
  · obtain rfl := Option.some.inj hl
    exact writtenAt_two (by omega) (by omega) h
  split at hl
  · obtain rfl := Option.some.inj hl
    exact writtenAt_three (by omega) (by omega) h
  split at hl
  · obtain rfl := Option.some.inj hl
    exact writtenAt_four (by omega) (by omega) h
  · cases hl

end

/-! ## Texts -/

theorem exists_pieces_cons (b : UInt8) (bs : List UInt8) :
    ∃ ps, pieces (b :: bs) = pieceAt b bs :: ps := by
  rw [pieces, scan, scan_found]
  exact ⟨_, rfl⟩

theorem eq_flatMap_of_pieces {bs : List UInt8} {cs : List Char} (h : pieces bs = cs.map .char) :
    bs = cs.flatMap String.utf8EncodeChar := by
  induction cs generalizing bs with
  | nil =>
    cases bs with
    | nil => rfl
    | cons b bs =>
      obtain ⟨ps, hps⟩ := exists_pieces_cons b bs
      rw [hps] at h
      cases h
  | cons c cs ih =>
    cases bs with
    | nil => cases h
    | cons b bs =>
      obtain ⟨ps, hps⟩ := exists_pieces_cons b bs
      have hp : pieceAt b bs = .char c := by
        rw [hps, List.map_cons, List.cons.injEq] at h
        exact h.1
      obtain ⟨taken, rest, rfl, hc⟩ := writtenAt_of_pieceAt hp
      have hl := String.length_utf8EncodeChar c
      rw [hc, List.length_cons] at hl
      rw [pieces_cons (by rw [hp]; exact hl.symm), List.map_cons, List.cons.injEq] at h
      rw [List.flatMap_cons, hc, ← ih h.2, List.cons_append]

theorem exists_of_characters {found cs : List Char} {start : Nat} {ps : List Piece}
    (h : characters found start ps = .ok cs) : ∃ cs', cs = found.reverse ++ cs' ∧
      ps = cs'.map .char := by
  induction ps generalizing found start with
  | nil =>
    rw [characters, Except.ok.injEq] at h
    exact ⟨[], by rw [List.append_nil, h], rfl⟩
  | cons p ps ih =>
    cases p with
    | broken reason first size => cases h
    | char c =>
      rw [characters] at h
      obtain ⟨cs', hcs, rfl⟩ := ih h
      exact ⟨c :: cs', by rw [hcs, List.reverse_cons, List.append_assoc]; rfl, rfl⟩

theorem decode_eq_ok_iff {bs : List UInt8} {s : String} : decode bs = .ok s ↔ bs = encode s := by
  constructor
  · intro h
    obtain ⟨cs, hcs, rfl⟩ := map_eq_ok_iff.mp h
    obtain ⟨cs', rfl, hps⟩ := exists_of_characters hcs
    unfold encode
    rw [String.toList_ofList]
    exact eq_flatMap_of_pieces hps
  · intro h
    rw [h, decode_encode]

end Utf8

end DebugMetadata
