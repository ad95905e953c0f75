import DebugMetadata.Proofs.Failure
import DebugMetadata.Proofs.Json.Depth
import DebugMetadata.Proofs.Text.Utf8

/-!
# Failures to decode a document

A payload that holds no document is malformed, whatever it holds, with one
exception: a text that is nested too deep fails for its depth
(`decode_failures`).
-/

namespace DebugMetadata

namespace SourceLink

/-! ## The parts of decoding -/

section
variable {depth : Nat} {payload : List UInt8} {text : String}

theorem decode_of_fault {fault : Utf8.Fault} (h : Utf8.decode payload = .error fault) :
    decode depth payload = .error (.badDocumentText fault) := by
  unfold decode
  rw [h]; rfl

theorem decode_of_text (h : Utf8.decode payload = .ok text) :
    decode depth payload = (Json.parse depth text).mapError .badDocumentJson >>= mapsOf := by
  unfold decode
  rw [h]; rfl

theorem mapsOf_failsOnly (v : Json.Value) : FailsOnly [.malformedSourceLink] (mapsOf v) := by
  unfold mapsOf
  split
  · exact .error (List.mem_singleton.mpr rfl)
  · refine .mapM (fun m => ?_) _
    unfold mapOf
    split
    · exact .ok _
    · exact .error (List.mem_singleton.mpr rfl)

theorem kind_badDocumentJson (fault : Json.Error) :
    (Error.badDocumentJson fault).kind =
      if fault = .tooDeep then .nestedTooDeep else .malformedSourceLink := by
  cases fault <;> simp [Error.kind]

theorem decode_failsOnly
    (h : ∀ text, Utf8.decode payload = .ok text → Json.parse depth text ≠ .error .tooDeep) :
    FailsOnly [.malformedSourceLink] (decode depth payload) := by
  cases htext : Utf8.decode payload with
  | error fault =>
    rw [decode_of_fault htext]
    exact .error (List.mem_singleton.mpr rfl)
  | ok text =>
    rw [decode_of_text htext]
    cases hv : Json.parse depth text with
    | error fault =>
      refine .error (List.mem_singleton.mpr ?_)
      rw [kind_badDocumentJson, if_neg]
      rintro rfl
      exact h text htext hv
    | ok v => exact mapsOf_failsOnly v

theorem decode_of_tooDeep (htext : Utf8.decode payload = .ok text)
    (h : Json.parse depth text = .error .tooDeep) :
    decode depth payload = .error (.badDocumentJson .tooDeep) := by
  rw [decode_of_text htext, h]; rfl

end

/-! ## Depth -/

/-- A payload fails as malformed or as nested too deep, and as nested too deep
exactly if reading its text comes to more containers inside each other than the
depth allows. A text with no more brackets than that fails as malformed only. -/
theorem decode_failures (depth : Nat) (payload : List UInt8) :
    FailsOnly [.malformedSourceLink, .nestedTooDeep] (decode depth payload) ∧
      ((∃ e, decode depth payload = .error e ∧ e.kind ≠ .malformedSourceLink) ↔
        ∃ text, Utf8.decode payload = .ok text ∧
        Json.Reaches (depth + 1) (Json.skipBlanks text.toList)) ∧
      ∀ text, Utf8.decode payload = .ok text → text.toList.countP Json.isOpening ≤ depth →
        FailsOnly [.malformedSourceLink] (decode depth payload) := by
  have hdeep : ∀ text,
      Json.Reaches (depth + 1) (Json.skipBlanks text.toList) ↔
        Json.parse depth text = .error .tooDeep :=
    fun text => Json.parse_eq_tooDeep_iff.symm
  refine ⟨?_, ?_, ?_⟩
  · by_cases h : ∃ text, Utf8.decode payload = .ok text ∧ Json.parse depth text = .error .tooDeep
    · obtain ⟨text, htext, h⟩ := h
      rw [decode_of_tooDeep htext h]
      exact .error (by simp [Error.kind])
    · refine (decode_failsOnly fun text htext h' => h ⟨text, htext, h'⟩).mono (by simp)
  · simp only [hdeep]
    constructor
    · rintro ⟨e, he, hkind⟩
      by_contra h
      exact hkind
        (List.mem_singleton.mp (decode_failsOnly (fun text htext h' => h ⟨text, htext, h'⟩) e he))
    · rintro ⟨text, htext, h⟩
      exact ⟨_, decode_of_tooDeep htext h, by simp [Error.kind]⟩
  · intro text htext hcount
    refine decode_failsOnly fun text' htext' h => ?_
    obtain rfl := Except.ok.inj (htext.symm.trans htext')
    have hle := ((hdeep text).mpr h).le_countP
    have hskip := (Json.skipBlanks_suffix text.toList).sublist.countP_le (p := Json.isOpening)
    omega

def listedDocument : List UInt8 := Utf8.encode "\x7b\"documents\": \x7b\"/build/*\": [null]\x7d\x7d"

theorem listedDocument_failures : ∃ text, Utf8.decode listedDocument = .ok text ∧
    text.toList.countP Json.isOpening ≤ 3 ∧
      FailsOnly [.malformedSourceLink] (decode 3 listedDocument) := by
  have htext := Utf8.decode_encode "\x7b\"documents\": \x7b\"/build/*\": [null]\x7d\x7d"
  exact ⟨_, htext, by decide, (decode_failures 3 listedDocument).2.2 _ htext (by decide)⟩

theorem decode_brackets {depth n : Nat} (h : depth < n) :
    decode depth (List.replicate n 0x5B) = .error (.badDocumentJson .tooDeep) := by
  have hbytes : List.replicate n 0x5B = Utf8.encode (String.ofList (List.replicate n '[')) := by
    rw [Utf8.encode, String.toList_ofList, List.flatMap_replicate]
    exact (List.flatten_replicate_singleton).symm
  obtain ⟨k, rfl⟩ : ∃ k, n = depth + 1 + k := ⟨n - (depth + 1), by omega⟩
  rw [hbytes]
  refine decode_of_tooDeep (Utf8.decode_encode _) (Json.parse_eq_tooDeep_iff.mpr ?_)
  rw [String.toList_ofList, List.replicate_add]
  exact Json.reaches_replicate depth _

/-- A payload of nothing but opening brackets fails for its depth and not as
malformed. -/
theorem brackets_nestedTooDeep :
    ∃ e, decode 1000 (List.replicate 20000 0x5B) = .error e ∧ e.kind ≠ .malformedSourceLink :=
  ⟨_, decode_brackets (by decide), by simp [Error.kind]⟩

end SourceLink

end DebugMetadata
