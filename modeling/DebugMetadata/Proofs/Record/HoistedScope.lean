import DebugMetadata.Proofs.Failure

/-!
# Scopes and their payloads

A list of scopes has one payload, and a payload of whole entries one list of
scopes (`decode_encode`, `encode_of_decode`). Ends are exact sums, so an end may take
33 bits, and the length of a scope is never lost.
-/

namespace DebugMetadata

namespace HoistedScope

def IsInt32 (n : Int) : Prop := -2 ^ 31 ≤ n ∧ n < 2 ^ 31

/-- A scope that is read back as itself. -/
def IsEntry (s : HoistedScope) : Prop := IsInt32 s.start ∧ IsInt32 (s.stop - s.start)

instance (n : Int) : Decidable (IsInt32 n) := inferInstanceAs (Decidable (_ ∧ _))

instance (s : HoistedScope) : Decidable s.IsEntry := inferInstanceAs (Decidable (_ ∧ _))

def entry (s : HoistedScope) : List UInt8 :=
  LittleEndian.signedBytes 4 s.start ++ LittleEndian.signedBytes 4 (s.stop - s.start)

def ofFields (offset length : List UInt8) : HoistedScope :=
  ⟨LittleEndian.signed offset, LittleEndian.signed offset + LittleEndian.signed length⟩

/-! ## One entry -/

theorem isInt32_signed {bs : List UInt8} (h : bs.length = 4) :
    IsInt32 (LittleEndian.signed bs) := by
  have hb : LittleEndian.bound 4 = 2 ^ 32 := rfl
  rw [LittleEndian.signed, h, hb]
  exact ⟨Int.le_bmod (by decide), Int.bmod_lt (by decide)⟩

theorem signed_of_isInt32 {n : Int} (h : IsInt32 n) :
    LittleEndian.signed (LittleEndian.signedBytes 4 n) = n :=
  LittleEndian.signed_signedBytes h.1 h.2

theorem stop_sub_start (offset length : List UInt8) :
    (ofFields offset length).stop - (ofFields offset length).start =
      LittleEndian.signed length := by
  simp only [ofFields, add_sub_cancel_left]

section
variable {offset length : List UInt8} (ho : offset.length = 4) (hl : length.length = 4)
include ho hl

theorem isEntry_ofFields : (ofFields offset length).IsEntry := by
  refine ⟨isInt32_signed ho, ?_⟩
  rw [stop_sub_start]
  exact isInt32_signed hl

theorem entry_ofFields : (ofFields offset length).entry = offset ++ length := by
  have h₁ := LittleEndian.signedBytes_signed offset
  have h₂ := LittleEndian.signedBytes_signed length
  rw [ho] at h₁
  rw [hl] at h₂
  rw [entry, stop_sub_start, h₂, ofFields, h₁]

theorem scan_fields (found : List HoistedScope) (rest : List UInt8) :
    scan found (offset ++ length ++ rest) = scan (ofFields offset length :: found) rest := by
  match offset, length, ho, hl with
  | [a, b, c, d], [e, f, g, h], _, _ => rfl

end

theorem scan_entry {s : HoistedScope} (h : s.IsEntry) (found : List HoistedScope)
    (rest : List UInt8) : scan found (s.entry ++ rest) = scan (s :: found) rest := by
  have hs : ofFields (LittleEndian.signedBytes 4 s.start)
      (LittleEndian.signedBytes 4 (s.stop - s.start)) = s := by
    rw [ofFields, signed_of_isInt32 h.1, signed_of_isInt32 h.2, add_sub_cancel]
  have h4 := LittleEndian.length_signedBytes 4
  rw [entry, scan_fields (h4 s.start) (h4 (s.stop - s.start)), hs]

/-! ## Payloads -/

theorem length_encode (scopes : List HoistedScope) :
    (encode scopes).length = scopes.length * size := by
  apply length_flatMap_of_length
  intro s _
  rw [List.length_append, LittleEndian.length_signedBytes, LittleEndian.length_signedBytes]; rfl

theorem scan_encode {scopes : List HoistedScope} (h : ∀ s ∈ scopes, s.IsEntry)
    (found : List HoistedScope) : scan found (encode scopes) = found.reverse ++ scopes := by
  induction scopes generalizing found with
  | nil => rw [List.append_nil]; rfl
  | cons s scopes ih =>
    rw [List.forall_mem_cons] at h
    have hcons : encode (s :: scopes) = s.entry ++ encode scopes := List.flatMap_cons ..
    rw [hcons, scan_entry h.1, ih h.2, List.reverse_cons, List.append_assoc, List.singleton_append]

theorem exists_fields {payload : List UInt8} {n : Nat} (h : payload.length = (n + 1) * size) :
    ∃ offset length rest, payload = offset ++ length ++ rest ∧ offset.length = 4 ∧
    length.length = 4 ∧
      rest.length = n * size := by
  unfold size at h ⊢
  refine ⟨payload.take 4, (payload.drop 4).take 4, payload.drop 8, ?_, ?_, ?_, ?_⟩
  · rw [← List.take_add, List.take_append_drop]
  · rw [List.length_take]; omega
  · rw [List.length_take, List.length_drop]; omega
  · rw [List.length_drop]; omega

theorem exists_scopes {payload : List UInt8} {n : Nat} (h : payload.length = n * size) :
    ∃ scopes, encode scopes = payload ∧ ∀ s ∈ scopes, s.IsEntry := by
  induction n generalizing payload with
  | zero =>
    rw [Nat.zero_mul, List.length_eq_zero_iff] at h
    exact ⟨[], h.symm, by simp⟩
  | succ n ih =>
    obtain ⟨offset, length, rest, rfl, ho, hl, hrest⟩ := exists_fields h
    obtain ⟨scopes, rfl, hs⟩ := ih hrest
    refine ⟨ofFields offset length :: scopes, ?_,
      List.forall_mem_cons.mpr ⟨isEntry_ofFields ho hl, hs⟩⟩
    rw [← entry_ofFields ho hl]
    exact List.flatMap_cons ..

theorem decode_encode {scopes : List HoistedScope} (h : ∀ s ∈ scopes, s.IsEntry) :
    decode (encode scopes) = .ok scopes := by
  rw [decode, length_encode, if_pos (Nat.mul_mod_left ..), scan_encode h]; rfl

theorem decode_eq_error_iff {payload : List UInt8} {e : Error} :
    decode payload = .error e ↔ e = .oddScopesSize payload.length ∧ ¬ size ∣ payload.length := by
  rw [Nat.dvd_iff_mod_eq_zero, decode]
  split
  · next h => simp [h]
  · next h => simp [h, eq_comm]

theorem size_dvd_of_decode {payload : List UInt8} {scopes : List HoistedScope}
    (h : decode payload = .ok scopes) : size ∣ payload.length := by
  refine Classical.byContradiction fun hn => ?_
  rw [decode_eq_error_iff.mpr ⟨rfl, hn⟩] at h
  cases h

theorem encode_of_decode {payload : List UInt8} {scopes : List HoistedScope}
    (h : decode payload = .ok scopes) : encode scopes = payload ∧ ∀ s ∈ scopes, s.IsEntry := by
  obtain ⟨n, hn⟩ := size_dvd_of_decode h
  obtain ⟨scopes', rfl, hs⟩ := exists_scopes (hn.trans (Nat.mul_comm ..))
  rw [decode_encode hs] at h
  cases h
  exact ⟨rfl, hs⟩

/-! ## Ends -/

theorem stop_of_isEntry {s : HoistedScope} (h : s.IsEntry) :
    -2 ^ 32 ≤ s.stop ∧ s.stop ≤ 2 ^ 32 - 2 := by
  obtain ⟨⟨h₁, h₂⟩, h₃, h₄⟩ := h
  omega

theorem isEntry_halved {stop : Int} (h : -2 ^ 32 ≤ stop ∧ stop ≤ 2 ^ 32 - 2) :
    (HoistedScope.mk (stop / 2) stop).IsEntry := by
  -- the start and the length are as near to each other as their sum lets them be
  obtain ⟨h₁, h₂⟩ := h
  refine ⟨⟨?_, ?_⟩, ?_, ?_⟩ <;> simp only <;> omega

/-- Reading and writing scopes undo each other: on the lists of scopes whose starts
and lengths are signed numbers of 32 bits, and on the payloads of whole entries.
The ends that come up are all sums of two such numbers. -/
theorem scopes_payload_bijection :
    (∀ payload, (∃ e, decode payload = .error e ∧ e.kind = .malformedBlob) ↔ ¬ 8 ∣ payload.length) ∧
    (∀ payload, 8 ∣ payload.length → ∃ scopes, decode payload = .ok scopes ∧ scopes.length = payload.length / 8 ∧
      encode scopes = payload ∧ ∀ s ∈ scopes, s.IsEntry) ∧
    (∀ scopes, (∀ s ∈ scopes, s.IsEntry) → decode (encode scopes) = .ok scopes) ∧
    (∀ payload payload' scopes, decode payload = .ok scopes → decode payload' = .ok scopes →
      payload = payload') ∧
    ∀ stop, (∃ payload scopes s, decode payload = .ok scopes ∧ s ∈ scopes ∧ s.stop = stop) ↔
      -2 ^ 32 ≤ stop ∧ stop ≤ 2 ^ 32 - 2 := by
  refine ⟨fun payload => ?_, fun payload h => ?_, fun scopes => decode_encode,
    fun payload payload' scopes h h' => ?_, fun stop => ?_⟩
  · constructor
    · intro h
      obtain ⟨e, he, _⟩ := h
      exact (decode_eq_error_iff.mp he).2
    · intro h
      exact ⟨_, decode_eq_error_iff.mpr ⟨rfl, h⟩, rfl⟩
  · obtain ⟨n, hn⟩ := h
    obtain ⟨scopes, rfl, hs⟩ := exists_scopes (hn.trans (Nat.mul_comm ..))
    refine ⟨scopes, decode_encode hs, ?_, rfl, hs⟩
    rw [length_encode, size, Nat.mul_div_cancel _ (by decide)]
  · exact (encode_of_decode h).1.symm.trans (encode_of_decode h').1
  · constructor
    · intro h
      obtain ⟨payload, scopes, s, hd, hs, rfl⟩ := h
      exact stop_of_isEntry ((encode_of_decode hd).2 s hs)
    · intro h
      have hs : ∀ s ∈ [HoistedScope.mk (stop / 2) stop], s.IsEntry := by
        intro s hs
        rw [List.mem_singleton.mp hs]
        exact isEntry_halved h
      exact ⟨_, _, _, decode_encode hs, List.mem_singleton.mpr rfl, rfl⟩

theorem farScopes_payload :
    (∀ s ∈ [HoistedScope.mk (-1) (-2 ^ 31 - 1), ⟨2 ^ 31 - 1, 2 ^ 32 - 2⟩], s.IsEntry) ∧
    decode [0xFF, 0xFF, 0xFF, 0xFF, 0, 0, 0, 0x80, 0xFF, 0xFF, 0xFF, 0x7F, 0xFF, 0xFF, 0xFF, 0x7F] =
      .ok [⟨-1, -2 ^ 31 - 1⟩, ⟨2 ^ 31 - 1, 2 ^ 32 - 2⟩] ∧
    (8 ∣ (List.replicate 16 (0 : UInt8)).length ∧
      ∃ scopes, decode (List.replicate 16 0) = .ok scopes ∧ scopes.length = 2) ∧
    ∃ e, decode (List.replicate 17 0) = .error e ∧ e.kind = .malformedBlob := by
  obtain ⟨herror, hread, hwritten, -, -⟩ := scopes_payload_bijection
  have hs : ∀ s ∈ [HoistedScope.mk (-1) (-2 ^ 31 - 1), ⟨2 ^ 31 - 1, 2 ^ 32 - 2⟩],
      s.IsEntry := by decide
  obtain ⟨scopes, hd, hl, -⟩ := hread (List.replicate 16 0) (by decide)
  exact ⟨hs, hwritten _ hs, ⟨by decide, scopes, hd, hl⟩, (herror _).mpr (by decide)⟩

end HoistedScope

end DebugMetadata
