import DebugMetadata.Proofs.Failure
import DebugMetadata.Proofs.Text.Strict

/-!
# Names and their payloads

A list of names has one payload, and a payload one list of names (`decode_encode`,
`encode_of_decode`). A zero byte is never a part of another character, so the
payload may be cut before it is decoded (`decode_of_text`): cutting it neither
hides a broken sequence nor makes one.
-/

namespace DebugMetadata

namespace TupleNames

/-- A text that is read back as itself: an empty name is a missing one, and the
first character of number zero ends a name. -/
def IsName (s : String) : Prop := s ≠ "" ∧ '\x00' ∉ s.toList

def IsPayload (payload : List UInt8) : Prop :=
  payload = [] ∨ payload.getLast? = some 0 ∧ ∃ text, payload = Utf8.encode text

def written (name : Option String) : List UInt8 := (name.map Utf8.encode).getD []

def ofText (s : String) : Option String := if s.isEmpty then none else some s

/-! ## One name -/

theorem element_of_encode (s : String) : element (Utf8.encode s) = .ok (ofText s) := by
  unfold element
  rw [Utf8.decode_encode]
  rfl

theorem ofText_ne (s : String) : ofText s ≠ some "" := by
  intro h
  unfold ofText at h
  split at h
  · cases h
  · next hs =>
    obtain rfl := Option.some.inj h
    exact hs rfl

theorem written_ofText (s : String) : written (ofText s) = Utf8.encode s := by
  unfold ofText
  split
  · next h =>
    rw [String.isEmpty_iff.mp h]
    rfl
  · rfl

theorem element_eq_ok_iff (bs : List UInt8) (name : Option String) :
    element bs = .ok name ↔ bs = written name ∧ name ≠ some "" := by
  constructor
  · intro h
    unfold element at h
    split at h
    · cases h
    · next s hs =>
      obtain rfl : ofText s = name := Except.ok.inj h
      exact ⟨(Utf8.decode_eq_ok_iff.mp hs).trans (written_ofText s).symm, ofText_ne s⟩
  · intro h
    obtain ⟨rfl, hne⟩ := h
    cases name with
    | none => exact element_of_encode ""
    | some s =>
      have hs : s.isEmpty = false := by
        rw [Bool.eq_false_iff, ne_eq, String.isEmpty_iff]
        intro hs
        exact hne (congrArg some hs)
      rw [written, Option.map_some, Option.getD_some, element_of_encode, ofText, hs]
      rfl

theorem zero_mem_written_iff (name : Option String) :
    0 ∈ written name ↔ ∃ s, name = some s ∧ '\x00' ∈ s.toList := by
  cases name with
  | none => simp [written]
  | some s => simp [written, Utf8.zero_mem_encode_iff]

/-! ## Payloads -/

theorem decode_append_zero (bs : List UInt8) :
    decode (bs ++ [0]) = (Separated.parts 0 bs).mapM element := by
  unfold decode
  rw [if_neg (by simp), if_neg (by simp), List.dropLast_concat]

theorem encode_eq (names : List (Option String)) :
    encode names = (names.map written).flatMap (· ++ [0]) := by
  rw [List.flatMap_map]
  rfl

theorem encode_eq_joined {names : List (Option String)} (h : names ≠ []) :
    encode names = Separated.joined 0 (names.map written) ++ [0] := by
  rw [encode_eq, Separated.flatMap_append_sep 0 (by simpa using h)]

theorem exists_of_decode {payload : List UInt8} {names : List (Option String)}
    (h : decode payload = .ok names)
    (hne : payload ≠ []) : ∃ bs, payload = bs ++ [0] := by
  unfold decode at h
  rw [if_neg (by simpa using hne)] at h
  split at h
  · cases h
  · next hlast => exact List.getLast?_eq_some_iff.mp (not_not.mp hlast)

theorem decode_encode {names : List (Option String)} (h : ∀ s, some s ∈ names → IsName s) :
    decode (encode names) = .ok names := by
  by_cases hnames : names = []
  · rw [hnames]
    rfl
  have hzero : ∀ bs ∈ names.map written, 0 ∉ bs := by
    intro bs hbs
    obtain ⟨name, hmem, rfl⟩ := List.mem_map.mp hbs
    rw [zero_mem_written_iff]
    intro h0
    obtain ⟨s, rfl, h0⟩ := h0
    exact (h s hmem).2 h0
  rw [encode_eq_joined hnames, decode_append_zero,
    Separated.parts_joined (by simpa using hnames) hzero]
  refine (mapM_eq_ok_iff element_eq_ok_iff).mpr ⟨rfl, ?_⟩
  intro name hmem hname
  rw [hname] at hmem
  exact (h "" hmem).1 rfl

theorem encode_of_decode {payload : List UInt8} {names : List (Option String)}
    (h : decode payload = .ok names) :
    encode names = payload ∧ ∀ s, some s ∈ names → IsName s := by
  by_cases hp : payload = []
  · rw [hp] at h
    obtain rfl : [] = names := Except.ok.inj h
    exact ⟨hp.symm, by simp⟩
  obtain ⟨bs, rfl⟩ := exists_of_decode h hp
  rw [decode_append_zero] at h
  obtain ⟨hparts, hne⟩ := (mapM_eq_ok_iff element_eq_ok_iff).mp h
  have hnames : names ≠ [] := by
    intro hn
    rw [hn] at hparts
    exact Separated.parts_ne_nil 0 bs hparts
  refine ⟨by rw [encode_eq_joined hnames, ← hparts, Separated.joined_parts], ?_⟩
  intro s hs
  have hpart : written (some s) ∈ Separated.parts 0 bs := by
    rw [hparts]
    exact List.mem_map_of_mem hs
  refine ⟨fun h0 => hne _ hs (congrArg some h0), ?_⟩
  intro h0
  exact Separated.not_mem_of_mem_parts hpart ((zero_mem_written_iff _).mpr ⟨s, rfl, h0⟩)

/-! ## Cutting and decoding -/

/-- The text is cut in the place of its bytes. -/
theorem decode_of_text {payload : List UInt8} {text : String} (ht : Utf8.decode payload = .ok text)
    (hlast : payload.getLast? = some 0) :
    decode payload =
      .ok ((Separated.parts '\x00' text.toList.dropLast).map fun cs => ofText (String.ofList cs)) := by
  obtain rfl := Utf8.decode_eq_ok_iff.mp ht
  obtain ⟨cs, hcs⟩ := Utf8.exists_of_getLast?_encode hlast
  have hcut : Separated.parts 0 (cs.flatMap String.utf8EncodeChar) =
      (Separated.parts '\x00' cs).map (List.flatMap String.utf8EncodeChar) :=
    Separated.parts_flatMap Utf8.utf8EncodeChar_zero
      (fun c hc => Utf8.zero_not_mem_utf8EncodeChar hc) cs
  rw [Utf8.encode, hcs, List.flatMap_append, List.flatMap_singleton, Utf8.utf8EncodeChar_zero,
    decode_append_zero, hcut, List.dropLast_concat]
  refine (mapM_eq_ok_iff element_eq_ok_iff).mpr ⟨?_, ?_⟩
  · rw [List.map_map]
    refine List.map_congr_left ?_
    intro part hpart
    rw [Function.comp_apply, written_ofText, Utf8.encode, String.toList_ofList]
  · intro name hmem
    obtain ⟨part, hpart, rfl⟩ := List.mem_map.mp hmem
    exact ofText_ne _

theorem exists_text (names : List (Option String)) : ∃ text, encode names = Utf8.encode text := by
  induction names with
  | nil => exact ⟨"", rfl⟩
  | cons name names ih =>
    obtain ⟨text, ht⟩ := ih
    have hname : written name = Utf8.encode (name.getD "") := by
      cases name with
      | none => rfl
      | some s => rfl
    have hcons : encode (name :: names) = written name ++ [0] ++ encode names := rfl
    refine ⟨name.getD "" ++ "\x00" ++ text, ?_⟩
    rw [hcons, hname, ht, Utf8.encode_append, Utf8.encode_append]
    rfl

theorem exists_decode_iff (payload : List UInt8) :
    (∃ names, decode payload = .ok names) ↔ IsPayload payload := by
  constructor
  · intro h
    obtain ⟨names, h⟩ := h
    obtain ⟨rfl, -⟩ := encode_of_decode h
    by_cases hnames : names = []
    · rw [hnames]
      exact .inl rfl
    · refine .inr ⟨?_, exists_text names⟩
      rw [encode_eq_joined hnames, List.getLast?_concat]
  · intro h
    cases h with
    | inl h =>
      rw [h]
      exact ⟨[], rfl⟩
    | inr h =>
      obtain ⟨hlast, text, ht⟩ := h
      exact ⟨_, decode_of_text (Utf8.decode_eq_ok_iff.mpr ht) hlast⟩

theorem exists_error_iff (payload : List UInt8) :
    (∃ e, decode payload = .error e ∧ e.kind = .malformedBlob) ↔ ¬ IsPayload payload := by
  rw [← exists_decode_iff]
  cases hd : decode payload with
  | ok names => simp
  | error e => simpa using decode_failsOnly payload e hd

/-- Reading and writing names undo each other: on the lists of names, and on
the texts in UTF-8 of which the last character is of number zero, or nothing.
There the bytes may be cut before they are decoded, or the text after. -/
theorem decode_encode_bijection :
    (∀ names, (∀ s, some s ∈ names → IsName s) → decode (encode names) = .ok names) ∧
    (∀ payload names, decode payload = .ok names →
      encode names = payload ∧ ∀ s, some s ∈ names → IsName s) ∧
    (∀ payload, (∃ names, decode payload = .ok names) ↔ IsPayload payload) ∧
    (∀ payload, (∃ e, decode payload = .error e ∧ e.kind = .malformedBlob) ↔ ¬ IsPayload payload) ∧
    ∀ payload text, payload.getLast? = some 0 → Utf8.decode payload = .ok text →
      decode payload =
        .ok ((Separated.parts '\x00' text.toList.dropLast).map fun cs => ofText (String.ofList cs)) := by
  refine ⟨fun names => decode_encode, fun payload names => encode_of_decode, exists_decode_iff,
    exists_error_iff, ?_⟩
  intro payload text hlast ht
  exact decode_of_text ht hlast

theorem decode_encode_gaps :
    (∀ s, some s ∈ [none, some "é", none] → IsName s) ∧
    decode [0, 0xC3, 0xA9, 0, 0] = .ok [none, some "é", none] ∧
    encode [none, some "é", none] = [0, 0xC3, 0xA9, 0, 0] ∧
    Utf8.decode [0, 0xC3, 0xA9, 0, 0] = .ok "\x00é\x00\x00" ∧
    decode [0, 0xC3, 0xA9, 0, 0] =
      .ok ((Separated.parts '\x00' ['\x00', 'é', '\x00']).map fun cs => ofText (String.ofList cs)) ∧
    ∃ e, decode [0xC3, 0, 0xA9, 0] = .error e ∧ e.kind = .malformedBlob := by
  obtain ⟨hread, hwritten, -, herror, htext⟩ := decode_encode_bijection
  have hnames : ∀ s, some s ∈ [none, some "é", none] → IsName s := by
    intro s hs
    obtain rfl : s = "é" := by simpa using hs
    exact ⟨by decide, by decide⟩
  have hencode : encode [none, some "é", none] = [0, 0xC3, 0xA9, 0, 0] := by decide
  have hdecode := hread _ hnames
  rw [hencode] at hdecode
  have hutf8 : Utf8.decode [0, 0xC3, 0xA9, 0, 0] = .ok "\x00é\x00\x00" := by
    rw [Utf8.decode_eq_ok_iff]
    decide
  refine ⟨hnames, hdecode, (hwritten _ _ hdecode).1, hutf8, htext _ _ (by decide) hutf8,
    (herror _).mpr ?_⟩
  intro h
  cases h with
  | inl h => cases h
  | inr h =>
    obtain ⟨-, text, ht⟩ := h
    cases Utf8.decode_eq_ok_iff.mpr ht

end TupleNames

end DebugMetadata
