import DebugMetadata.Text.Utf8

/-!
# Reading written text

The bytes of a text are cut into its characters again, so decoding undoes
encoding (`decode_encode`). A zero byte stands for the character of number zero
and for nothing else (`zero_mem_encode_iff`).
-/

namespace DebugMetadata

namespace Utf8

/-! ## Bytes as numbers -/

theorem lead?_eq (b : UInt8) :
    lead? b =
      if b.toNat < 0x80 then some ⟨b.toNat, 0x80, 0xBF, 0⟩
      else if b.toNat < 0xC2 then none
      else if b.toNat < 0xE0 then some ⟨b.toNat - 0xC0, 0x80, 0xBF, 1⟩
      else if b.toNat < 0xF0 then
        some ⟨b.toNat - 0xE0, if b.toNat = 0xE0 then 0xA0 else 0x80,
          if b.toNat = 0xED then 0x9F else 0xBF, 2⟩
      else if b.toNat < 0xF5 then
        some ⟨b.toNat - 0xF0, if b.toNat = 0xF0 then 0x90 else 0x80,
          if b.toNat = 0xF4 then 0x8F else 0xBF, 3⟩
      else none := by
  simp [lead?, UInt8.lt_iff_toNat_lt, ← UInt8.toNat_inj]

theorem continued_cons {first low high : UInt8} {more bits taken n : Nat} (bs : List UInt8)
    (hn : n < 64) (hl : low.toNat ≤ n + 0x80) (hh : n + 0x80 ≤ high.toNat) :
    continued first low high (more + 1) bits taken (UInt8.ofNat (n + 0x80) :: bs) =
      continued first 0x80 0xBF more (bits * 64 + n) (taken + 1) bs := by
  have hb : (UInt8.ofNat (n + 0x80)).toNat = n + 0x80 := by rw [UInt8.toNat_ofNat']; omega
  have hrange : low ≤ UInt8.ofNat (n + 0x80) ∧ UInt8.ofNat (n + 0x80) ≤ high := by
    rw [UInt8.le_iff_toNat_le, UInt8.le_iff_toNat_le, hb]
    exact ⟨hl, hh⟩
  rw [continued, if_pos hrange, hb, Nat.add_sub_cancel]

/-! ## Encodings by their values -/

theorem toNat_val_ofNat {n : Nat} (h : n.isValidChar) : (Char.ofNat n).val.toNat = n := by
  unfold Char.ofNat
  rw [dif_pos h]; rfl

section
variable {k n₁ n₂ n₃ : Nat}

theorem utf8EncodeChar_one (hk : k < 0x80) :
    String.utf8EncodeChar (Char.ofNat k) = [UInt8.ofNat k] := by
  have hv : (Char.ofNat k).val.toNat = k := toNat_val_ofNat (.inl (by omega))
  unfold String.utf8EncodeChar
  simp only [hv]
  rw [if_pos (by omega)]

theorem utf8EncodeChar_two (hk : 2 ≤ k) (hk' : k < 0x20) (h₁ : n₁ < 64) :
    String.utf8EncodeChar (Char.ofNat (k * 64 + n₁)) =
      [UInt8.ofNat (k + 0xC0), UInt8.ofNat (n₁ + 0x80)] := by
  have hv : (Char.ofNat (k * 64 + n₁)).val.toNat = k * 64 + n₁ := toNat_val_ofNat (.inl (by omega))
  have hlead : (k * 64 + n₁) / 64 % 0x20 = k := by omega
  have hlast : (k * 64 + n₁) % 64 = n₁ := by omega
  unfold String.utf8EncodeChar
  simp only [hv]
  rw [if_neg (by omega), if_pos (by omega), hlead, hlast]

theorem utf8EncodeChar_three (hk : k < 0x10) (h₁ : n₁ < 64) (h₂ : n₂ < 64)
    (hlow : 0x20 ≤ k * 64 + n₁)
    (hsurrogate : k * 64 + n₁ < 0x360 ∨ 0x37F < k * 64 + n₁) :
    String.utf8EncodeChar (Char.ofNat ((k * 64 + n₁) * 64 + n₂)) =
      [UInt8.ofNat (k + 0xE0), UInt8.ofNat (n₁ + 0x80), UInt8.ofNat (n₂ + 0x80)] := by
  -- the first two bytes keep off the overlong forms and the surrogates
  have hv : (Char.ofNat ((k * 64 + n₁) * 64 + n₂)).val.toNat = (k * 64 + n₁) * 64 + n₂ := by
    apply toNat_val_ofNat
    unfold Nat.isValidChar
    omega
  have hlead : ((k * 64 + n₁) * 64 + n₂) / 4096 % 0x10 = k := by omega
  have hnext : ((k * 64 + n₁) * 64 + n₂) / 64 % 64 = n₁ := by omega
  have hlast : ((k * 64 + n₁) * 64 + n₂) % 64 = n₂ := by omega
  unfold String.utf8EncodeChar
  simp only [hv]
  rw [if_neg (by omega), if_neg (by omega), if_pos (by omega), hlead, hnext, hlast]

theorem utf8EncodeChar_four (hk : k < 0x8) (h₁ : n₁ < 64) (h₂ : n₂ < 64) (h₃ : n₃ < 64)
    (hlow : 0x10 ≤ k * 64 + n₁)
    (hhigh : k * 64 + n₁ < 0x110) :
    String.utf8EncodeChar (Char.ofNat (((k * 64 + n₁) * 64 + n₂) * 64 + n₃)) =
      [UInt8.ofNat (k + 0xF0), UInt8.ofNat (n₁ + 0x80), UInt8.ofNat (n₂ + 0x80),
        UInt8.ofNat (n₃ + 0x80)] := by
  have hv : (Char.ofNat (((k * 64 + n₁) * 64 + n₂) * 64 + n₃)).val.toNat =
      ((k * 64 + n₁) * 64 + n₂) * 64 + n₃ := by
    apply toNat_val_ofNat
    unfold Nat.isValidChar
    omega
  have hlead : (((k * 64 + n₁) * 64 + n₂) * 64 + n₃) / 262144 % 0x08 = k := by omega
  have hsecond : (((k * 64 + n₁) * 64 + n₂) * 64 + n₃) / 4096 % 64 = n₁ := by omega
  have hthird : (((k * 64 + n₁) * 64 + n₂) * 64 + n₃) / 64 % 64 = n₂ := by omega
  have hlast : (((k * 64 + n₁) * 64 + n₂) * 64 + n₃) % 64 = n₃ := by omega
  unfold String.utf8EncodeChar
  simp only [hv]
  rw [if_neg (by omega), if_neg (by omega), if_neg (by omega), hlead, hsecond, hthird, hlast]

end

/-! ## One character -/

theorem pieceAt_eq {b : UInt8} {lead : Lead} (h : lead? b = some lead) (bs : List UInt8) :
    pieceAt b bs = continued b lead.low lead.high lead.more lead.bits 1 bs := by
  unfold pieceAt; rw [h]

section
variable {k n₁ n₂ n₃ : Nat} (rest : List UInt8)

theorem pieceAt_one (hk : k < 0x80) : pieceAt (UInt8.ofNat k) rest = .char (Char.ofNat k) := by
  have hb : (UInt8.ofNat k).toNat = k := by rw [UInt8.toNat_ofNat']; omega
  rw [pieceAt_eq (by rw [lead?_eq, hb, if_pos hk])]
  rfl

theorem pieceAt_two (hk : 2 ≤ k) (hk' : k < 0x20) (h₁ : n₁ < 64) :
    pieceAt (UInt8.ofNat (k + 0xC0)) (UInt8.ofNat (n₁ + 0x80) :: rest) =
      .char (Char.ofNat (k * 64 + n₁)) := by
  have hb : (UInt8.ofNat (k + 0xC0)).toNat = k + 0xC0 := by rw [UInt8.toNat_ofNat']; omega
  rw [pieceAt_eq (by rw [lead?_eq, hb, if_neg (by omega), if_neg (by omega), if_pos (by omega)]),
    continued_cons _ h₁ (by simp) (by simp; omega), Nat.add_sub_cancel]
  rfl

theorem pieceAt_three (hk : k < 0x10) (h₁ : n₁ < 64) (h₂ : n₂ < 64) (hlow : 0x20 ≤ k * 64 + n₁)
    (hsurrogate : k * 64 + n₁ < 0x360 ∨ 0x37F < k * 64 + n₁) :
    pieceAt (UInt8.ofNat (k + 0xE0))
        (UInt8.ofNat (n₁ + 0x80) :: UInt8.ofNat (n₂ + 0x80) :: rest) =
      .char (Char.ofNat ((k * 64 + n₁) * 64 + n₂)) := by
  have hb : (UInt8.ofNat (k + 0xE0)).toNat = k + 0xE0 := by rw [UInt8.toNat_ofNat']; omega
  have hl : (if k + 0xE0 = 0xE0 then (0xA0 : UInt8) else 0x80).toNat ≤ n₁ + 0x80 := by
    split
    · show 0xA0 ≤ _; omega
    · show 0x80 ≤ _; omega
  have hh : n₁ + 0x80 ≤ (if k + 0xE0 = 0xED then (0x9F : UInt8) else 0xBF).toNat := by
    split
    · show _ ≤ 0x9F; omega
    · show _ ≤ 0xBF; omega
  rw [pieceAt_eq (by
      rw [lead?_eq, hb, if_neg (by omega), if_neg (by omega), if_neg (by omega),
        if_pos (by omega)]),
    continued_cons _ h₁ hl hh, continued_cons _ h₂ (by simp) (by simp; omega), Nat.add_sub_cancel]
  rfl

theorem pieceAt_four (hk : k < 0x8) (h₁ : n₁ < 64) (h₂ : n₂ < 64) (h₃ : n₃ < 64)
    (hlow : 0x10 ≤ k * 64 + n₁) (hhigh : k * 64 + n₁ < 0x110) :
    pieceAt (UInt8.ofNat (k + 0xF0))
        (UInt8.ofNat (n₁ + 0x80) :: UInt8.ofNat (n₂ + 0x80) :: UInt8.ofNat (n₃ + 0x80) :: rest) =
      .char (Char.ofNat (((k * 64 + n₁) * 64 + n₂) * 64 + n₃)) := by
  have hb : (UInt8.ofNat (k + 0xF0)).toNat = k + 0xF0 := by rw [UInt8.toNat_ofNat']; omega
  have hl : (if k + 0xF0 = 0xF0 then (0x90 : UInt8) else 0x80).toNat ≤ n₁ + 0x80 := by
    split
    · show 0x90 ≤ _; omega
    · show 0x80 ≤ _; omega
  have hh : n₁ + 0x80 ≤ (if k + 0xF0 = 0xF4 then (0x8F : UInt8) else 0xBF).toNat := by
    split
    · show _ ≤ 0x8F; omega
    · show _ ≤ 0xBF; omega
  rw [pieceAt_eq (by
      rw [lead?_eq, hb, if_neg (by omega), if_neg (by omega), if_neg (by omega), if_neg (by omega),
        if_pos (by omega)]),
    continued_cons _ h₁ hl hh, continued_cons _ h₂ (by simp) (by simp; omega),
    continued_cons _ h₃ (by simp) (by simp; omega), Nat.add_sub_cancel]
  rfl

end

theorem pieceAt_utf8EncodeChar (c : Char) (rest : List UInt8) :
    ∃ b taken, String.utf8EncodeChar c = b :: taken ∧ pieceAt b (taken ++ rest) = .char c := by
  obtain ⟨v, hv, rfl⟩ : ∃ v, v.isValidChar ∧ Char.ofNat v = c :=
    ⟨c.val.toNat, c.valid, Char.ofNat_toNat c⟩
  unfold Nat.isValidChar at hv
  have hcut : ∀ n : Nat, ∃ k m, m < 64 ∧ k * 64 + m = n :=
    fun n => ⟨n / 64, n % 64, Nat.mod_lt n (by decide), Nat.div_add_mod' n 64⟩
  by_cases hone : v < 0x80
  · exact ⟨_, _, utf8EncodeChar_one hone, pieceAt_one rest hone⟩
  obtain ⟨n, n₁, h₁, rfl⟩ := hcut v
  by_cases htwo : n < 0x20
  · exact ⟨_, _, utf8EncodeChar_two (by omega) htwo h₁, pieceAt_two rest (by omega) htwo h₁⟩
  obtain ⟨n, n₂, h₂, rfl⟩ := hcut n
  by_cases hthree : n < 0x10
  · exact ⟨_, _, utf8EncodeChar_three hthree h₂ h₁ (by omega) (by omega),
      pieceAt_three rest hthree h₂ h₁ (by omega) (by omega)⟩
  obtain ⟨n, n₃, h₃, rfl⟩ := hcut n
  exact ⟨_, _, utf8EncodeChar_four (by omega) h₃ h₂ h₁ (by omega) (by omega),
    pieceAt_four rest (by omega) h₃ h₂ h₁ (by omega) (by omega)⟩

/-! ## Texts -/

theorem pieces_utf8EncodeChar (c : Char) (rest : List UInt8) :
    pieces (String.utf8EncodeChar c ++ rest) = .char c :: pieces rest := by
  obtain ⟨b, taken, hc, hp⟩ := pieceAt_utf8EncodeChar c rest
  have hl := String.length_utf8EncodeChar c
  rw [hc, List.length_cons] at hl
  rw [hc, List.cons_append, pieces_cons (by rw [hp]; exact hl.symm), hp]

theorem pieces_encode (cs : List Char) :
    pieces (cs.flatMap String.utf8EncodeChar) = cs.map .char := by
  induction cs with
  | nil => rfl
  | cons c cs ih => rw [List.flatMap_cons, pieces_utf8EncodeChar, ih, List.map_cons]

theorem characters_map_char (found : List Char) (start : Nat) (cs : List Char) :
    characters found start (cs.map .char) = .ok (found.reverse ++ cs) := by
  induction cs generalizing found start with
  | nil => rw [List.map_nil, characters, List.append_nil]
  | cons c cs ih => rw [List.map_cons, characters, ih, List.reverse_cons, List.append_assoc]; rfl

theorem encode_append (s t : String) : encode (s ++ t) = encode s ++ encode t := by
  unfold encode
  rw [String.toList_append, List.flatMap_append]

theorem decode_encode (s : String) : decode (encode s) = .ok s := by
  unfold decode encode
  rw [pieces_encode, characters_map_char]
  exact congrArg Except.ok String.ofList_toList

theorem decodeLossy_encode (s : String) : decodeLossy (encode s) = s := by
  unfold decodeLossy encode
  rw [pieces_encode, List.map_map]
  have h : Piece.shown ∘ Piece.char = id := rfl
  rw [h, List.map_id, String.ofList_toList]

theorem ofNat_ne_zero {n : Nat} (h0 : 0 < n) (h : n < 256) : (0 : UInt8) ≠ UInt8.ofNat n := by
  intro he
  have hn : (UInt8.ofNat n).toNat = n := by rw [UInt8.toNat_ofNat']; omega
  rw [← he] at hn
  have h0' : (0 : UInt8).toNat = 0 := rfl
  omega

theorem utf8EncodeChar_zero : String.utf8EncodeChar '\x00' = [0] := by decide

theorem zero_not_mem_utf8EncodeChar {c : Char} (h : c ≠ '\x00') : 0 ∉ String.utf8EncodeChar c := by
  intro hz
  have hv : c.val.toNat ≠ 0 := by
    intro h0
    exact h (Char.ext (UInt32.toNat_inj.mp h0))
  have hlt : c.val.toNat < 0xD800 ∨ 0xDFFF < c.val.toNat ∧ c.val.toNat < 0x110000 := c.valid
  unfold String.utf8EncodeChar at hz
  simp only at hz
  generalize c.val.toNat = v at hv hlt hz
  split at hz
  · exact ofNat_ne_zero (by omega) (by omega) (List.mem_singleton.mp hz)
  split at hz
  · simp only [List.mem_cons, List.not_mem_nil, or_false] at hz
    rcases hz with hz | hz <;> exact ofNat_ne_zero (by omega) (by omega) hz
  split at hz
  · simp only [List.mem_cons, List.not_mem_nil, or_false] at hz
    rcases hz with hz | hz | hz <;> exact ofNat_ne_zero (by omega) (by omega) hz
  · simp only [List.mem_cons, List.not_mem_nil, or_false] at hz
    rcases hz with hz | hz | hz | hz <;> exact ofNat_ne_zero (by omega) (by omega) hz

theorem zero_mem_encode_iff (s : String) : 0 ∈ encode s ↔ '\x00' ∈ s.toList := by
  unfold encode
  rw [List.mem_flatMap]
  constructor
  · intro h
    obtain ⟨c, hc, hz⟩ := h
    by_cases h0 : c = '\x00'
    · rw [← h0]
      exact hc
    · exact absurd hz (zero_not_mem_utf8EncodeChar h0)
  · intro h
    exact ⟨'\x00', h, by simp [utf8EncodeChar_zero]⟩

theorem exists_of_getLast?_encode {s : String} (h : (encode s).getLast? = some 0) :
    ∃ cs, s.toList = cs ++ ['\x00'] := by
  unfold encode at h
  cases List.eq_nil_or_concat s.toList with
  | inl hs =>
    rw [hs] at h
    cases h
  | inr hs =>
    obtain ⟨cs, c, hs⟩ := hs
    rw [List.concat_eq_append] at hs
    refine ⟨cs, ?_⟩
    by_cases hc : c = '\x00'
    · rw [hs, hc]
    · obtain ⟨b, taken, hb, -⟩ := pieceAt_utf8EncodeChar c []
      have hlast : (String.utf8EncodeChar c).getLast? = some 0 := by
        rw [hs, List.flatMap_append, List.flatMap_singleton, List.getLast?_append] at h
        rw [hb, List.getLast?_cons] at h ⊢
        exact h
      exact absurd (List.mem_of_getLast? hlast) (zero_not_mem_utf8EncodeChar hc)

theorem zero_not_mem_encode {s : String} (h : '\x00' ∉ s.toList) : 0 ∉ encode s :=
  mt (zero_mem_encode_iff s).mp h

end Utf8

end DebugMetadata
