import DebugMetadata.Proofs.Keyed
import DebugMetadata.Proofs.Result
import DebugMetadata.Proofs.SourceLink.Failure
import DebugMetadata.Proofs.Text.Quoted

/-!
# The members of a document

What a document means is told by the members of its last `documents` object
alone: which payloads are accepted, the maps and their order, and the key that an
error names (`decode_members`).
-/

namespace DebugMetadata

namespace SourceLink

/-! ## What a payload says -/

/-- A payload is the text of a value, with no more containers inside each other than
the depth allows. -/
def Says (depth : Nat) (payload : List UInt8) (v : Json.Value) : Prop :=
  ∃ text, Utf8.decode payload = .ok text ∧ Json.parse depth text = .ok v

/-- A value is an object whose last `documents` is an object with these members. -/
def HasDocuments (v : Json.Value) (ms : List (Text × Json.Value)) : Prop :=
  ∃ top, v = .object top ∧ Keyed.IsLast ("documents" : Text) (.object ms) top

def IsText (v : Json.Value) : Prop := ∃ s, v = .string s

section
variable {depth : Nat} {payload : List UInt8} {v : Json.Value}

theorem Says.ne_tooDeep (h : Says depth payload v) (text : String)
    (htext : Utf8.decode payload = .ok text) : Json.parse depth text ≠ .error .tooDeep := by
  obtain ⟨text', htext', hv⟩ := h
  obtain rfl := Except.ok.inj (htext'.symm.trans htext)
  rw [hv]; simp

theorem Says.decode_eq (h : Says depth payload v) : decode depth payload = mapsOf v := by
  obtain ⟨text, htext, hv⟩ := h
  rw [decode_of_text htext, hv]; rfl

theorem says_of_decode {maps : List Map} (h : decode depth payload = .ok maps) :
    ∃ v, Says depth payload v := by
  cases htext : Utf8.decode payload with
  | error fault => rw [decode_of_fault htext] at h; cases h
  | ok text =>
    cases hv : Json.parse depth text with
    | error fault => rw [decode_of_text htext, hv] at h; cases h
    | ok v => exact ⟨v, text, htext, hv⟩

end

section
variable {v : Json.Value} {ms : List (Text × Json.Value)}

theorem documents?_eq_some_iff : documents? v = some ms ↔ HasDocuments v ms := by
  have hobject : ∀ top : List (Text × Json.Value), documents? (.object top) = some ms ↔
      Keyed.IsLast ("documents" : Text) (.object ms) top := by
    intro top
    rw [← Keyed.find?_effective_eq_some_iff, documents?]
    split
    · next ms' h => simp [h]
    · next hne => exact iff_of_false (by simp) (hne ms)
  constructor
  · intro h
    unfold documents? at h
    cases v with
    | object top => exact ⟨top, rfl, (hobject top).mp h⟩
    | _ => cases h
  · rintro ⟨top, rfl, h⟩
    exact (hobject top).mpr h

theorem HasDocuments.mapsOf_eq (h : HasDocuments v ms) :
    mapsOf v = (Keyed.effective ms).mapM mapOf := by
  rw [mapsOf, documents?_eq_some_iff.mpr h]

theorem hasDocuments_of_mapsOf {maps : List Map} (h : mapsOf v = .ok maps) :
    ∃ ms, HasDocuments v ms := by
  unfold mapsOf at h
  split at h
  · cases h
  · next ms hms => exact ⟨ms, documents?_eq_some_iff.mp hms⟩

end

/-! ## Members and maps -/

/-- The members of `documents` for some maps. -/
def membersOf (maps : List Map) : List (Text × Json.Value) :=
  maps.map fun m => (m.pathPattern, .string m.uriPattern)

theorem mapOf_eq_ok_iff {e : Text × Json.Value} {m : Map} :
    mapOf e = .ok m ↔ e = (m.pathPattern, .string m.uriPattern) := by
  obtain ⟨path, v⟩ := e
  obtain ⟨path', uri'⟩ := m
  cases v with
  | string uri => simp [mapOf]
  | _ => simp [mapOf]

theorem mapOf_eq_error_iff {e : Text × Json.Value} {error : Error} :
    mapOf e = .error error ↔ ¬ IsText e.2 ∧ error = .badUriPattern e.1 e.2 := by
  obtain ⟨path, v⟩ := e
  cases v with
  | string uri => simp [mapOf, IsText]
  | _ => simp [mapOf, IsText, eq_comm]

theorem map_fst_membersOf (maps : List Map) :
    (membersOf maps).map (·.1) = maps.map Map.pathPattern := by
  rw [membersOf, List.map_map]; rfl

theorem mapM_mapOf_eq_ok_iff {entries : List (Text × Json.Value)} {maps : List Map} :
    entries.mapM mapOf = .ok maps ↔ entries = membersOf maps := by
  have hread : ∀ m : Map, mapOf (m.pathPattern, .string m.uriPattern) = .ok m :=
    fun m => mapOf_eq_ok_iff.mpr rfl
  constructor
  · intro h
    induction entries generalizing maps with
    | nil => cases h; rfl
    | cons e entries ih =>
      cases he : mapOf e with
      | error error => rw [mapM_cons_of_error he] at h; cases h
      | ok m =>
        rw [mapM_cons_of_ok he] at h
        obtain ⟨maps, hmaps, rfl⟩ := map_eq_ok_iff.mp h
        rw [ih hmaps, mapOf_eq_ok_iff.mp he]; rfl
  · rintro rfl
    induction maps with
    | nil => rfl
    | cons m maps ih =>
      show ((m.pathPattern, .string m.uriPattern) :: membersOf maps).mapM mapOf = _
      rw [mapM_cons_of_ok (hread m), ih]; rfl

theorem decode_eq_ok_iff {depth : Nat} {payload : List UInt8} {maps : List Map} :
    decode depth payload = .ok maps ↔
      ∃ v ms, Says depth payload v ∧ HasDocuments v ms ∧ Keyed.effective ms = membersOf maps := by
  constructor
  · intro h
    obtain ⟨v, hv⟩ := says_of_decode h
    rw [hv.decode_eq] at h
    obtain ⟨ms, hms⟩ := hasDocuments_of_mapsOf h
    rw [hms.mapsOf_eq, mapM_mapOf_eq_ok_iff] at h
    exact ⟨v, ms, hv, hms, h⟩
  · rintro ⟨v, ms, hv, hms, h⟩
    rw [hv.decode_eq, hms.mapsOf_eq, mapM_mapOf_eq_ok_iff]
    exact h

theorem exists_decode_iff {depth : Nat} {payload : List UInt8} :
    (∃ maps, decode depth payload = .ok maps) ↔
      ∃ v ms, Says depth payload v ∧ HasDocuments v ms ∧ ∀ k w, Keyed.IsLast k w ms → IsText w := by
  have htexts : ∀ ms, (∃ maps, Keyed.effective ms = membersOf maps) ↔
      ∀ k w, Keyed.IsLast k w ms → IsText w := by
    intro ms
    simp only [← mapM_mapOf_eq_ok_iff, mapM_exists_ok_iff, mapOf_eq_ok_iff,
      ← Keyed.mem_effective_iff]
    constructor
    · intro h k w hm
      obtain ⟨m, hm⟩ := h (k, w) hm
      exact ⟨m.uriPattern, (Prod.mk.inj hm).2⟩
    · rintro h ⟨k, w⟩ hm
      obtain ⟨s, rfl⟩ := h k w hm
      exact ⟨⟨k, s⟩, rfl⟩
  simp only [decode_eq_ok_iff, ← htexts]
  constructor
  · rintro ⟨maps, v, ms, hv, hms, h⟩
    exact ⟨v, ms, hv, hms, maps, h⟩
  · rintro ⟨v, ms, hv, hms, maps, h⟩
    exact ⟨maps, v, ms, hv, hms, h⟩

section
variable {depth : Nat} {payload : List UInt8} {v : Json.Value} {ms : List (Text × Json.Value)}
  (hv : Says depth payload v) (hms : HasDocuments v ms)
include hv hms

theorem decode_of_documents : decode depth payload = (Keyed.effective ms).mapM mapOf := by
  rw [hv.decode_eq, hms.mapsOf_eq]

theorem maps_of_decode {maps : List Map} (h : decode depth payload = .ok maps) :
    (maps.map Map.pathPattern).Nodup ∧ maps.map Map.pathPattern = (ms.map (·.1)).eraseDups ∧
      ∀ m ∈ maps, Keyed.IsLast m.pathPattern (.string m.uriPattern) ms := by
  rw [decode_of_documents hv hms, mapM_mapOf_eq_ok_iff] at h
  rw [← map_fst_membersOf, ← h, ← Keyed.map_fst_effective]
  refine ⟨Keyed.nodup_effective ms, rfl, fun m hm => ?_⟩
  rw [← Keyed.mem_effective_iff, h]
  exact List.mem_map.mpr ⟨m, hm, rfl⟩

/-- A value that is no text is refused, the first one in the order of the keys. -/
theorem decode_of_not_isText {k : Text} {w : Json.Value} (hk : Keyed.IsLast k w ms)
    (hw : ¬ IsText w) :
    ∃ before j u behind, (ms.map (·.1)).eraseDups = before ++ j :: behind ∧
      (∀ i ∈ before, ∃ s, Keyed.IsLast i (.string s) ms) ∧ Keyed.IsLast j u ms ∧ ¬ IsText u ∧
      decode depth payload = .error (.badUriPattern j u) := by
  rw [decode_of_documents hv hms]
  cases hmaps : (Keyed.effective ms).mapM mapOf with
  | ok maps =>
    rw [mapM_mapOf_eq_ok_iff] at hmaps
    rw [← Keyed.mem_effective_iff, hmaps] at hk
    obtain ⟨m, -, hm⟩ := List.mem_map.mp hk
    exact absurd ⟨m.uriPattern, (Prod.mk.inj hm).2.symm⟩ hw
  | error e =>
    obtain ⟨before, ⟨j, u⟩, behind, hl, hbefore, he⟩ := exists_of_mapM_eq_error hmaps
    obtain ⟨hu, rfl⟩ := mapOf_eq_error_iff.mp he
    refine ⟨before.map (·.1), j, u, behind.map (·.1), ?_, ?_, ?_, hu, rfl⟩
    · rw [← Keyed.map_fst_effective, hl, List.map_append, List.map_cons]
    · intro i hi
      obtain ⟨⟨i, x⟩, hx, rfl⟩ := List.mem_map.mp hi
      obtain ⟨m, hm⟩ := hbefore _ hx
      obtain ⟨rfl, rfl⟩ := Prod.mk.inj (mapOf_eq_ok_iff.mp hm)
      exact ⟨m.uriPattern, Keyed.mem_effective_iff.mp (hl ▸ List.mem_append_left _ hx)⟩
    · exact Keyed.mem_effective_iff.mp (hl ▸ List.mem_append_right _ (List.mem_cons_self ..))

end

theorem message_badUriPattern (k : Text) (w : Json.Value) : (Error.badUriPattern k w).message =
    "Invalid URI pattern for " ++ (Quoted.text k ++ (": " ++ w.display)) := by
  show s!"Invalid URI pattern for {Quoted.text k}: {w.display}" = _
  simp only [toString, String.append_assoc]

theorem eq_of_message_badUriPattern {j k : Text} {u w : Json.Value}
    (h : (Error.badUriPattern k w).message = (Error.badUriPattern j u).message) : k = j := by
  rw [message_badUriPattern, message_badUriPattern, String.append_right_inj] at h
  exact (Quoted.text_append_inj h).1

/-- Which payloads are accepted, what their maps are and what is refused about the
others: all of it is told by the members of the last `documents`. -/
theorem decode_members (depth : Nat) (payload : List UInt8)
    (hread : ∀ text, Utf8.decode payload = .ok text → Json.parse depth text ≠ .error .tooDeep) :
    ((∃ maps, decode depth payload = .ok maps) ↔
      ∃ v ms, Says depth payload v ∧ HasDocuments v ms ∧
        ∀ k w, Keyed.IsLast k w ms → IsText w) ∧
    FailsOnly [.malformedSourceLink] (decode depth payload) ∧
    ∀ v ms, Says depth payload v → HasDocuments v ms →
      (∀ maps, decode depth payload = .ok maps →
        (maps.map Map.pathPattern).Nodup ∧ maps.map Map.pathPattern = (ms.map (·.1)).eraseDups ∧
          ∀ m ∈ maps, Keyed.IsLast m.pathPattern (.string m.uriPattern) ms) ∧
      (∀ k w, Keyed.IsLast k w ms → ¬ IsText w → ∃ before j u behind,
        (ms.map (·.1)).eraseDups = before ++ j :: behind ∧
          (∀ i ∈ before, ∃ s, Keyed.IsLast i (.string s) ms) ∧ Keyed.IsLast j u ms ∧ ¬ IsText u ∧
          decode depth payload = .error (.badUriPattern j u) ∧
          (Error.badUriPattern j u).message =
            s!"Invalid URI pattern for {Quoted.text j}: {u.display}" ∧
          ∀ i x, (Error.badUriPattern i x).message = (Error.badUriPattern j u).message → i = j) ∧
      ∀ depth' payload' v', Says depth' payload' v' → HasDocuments v' ms →
        decode depth' payload' = decode depth payload := by
  refine ⟨exists_decode_iff, decode_failsOnly hread, fun v ms hv hms => ⟨?_, ?_, ?_⟩⟩
  · exact fun maps => maps_of_decode hv hms
  · intro k w hk hw
    obtain ⟨before, j, u, behind, hkeys, hbefore, hj, hu, he⟩ := decode_of_not_isText hv hms hk hw
    exact ⟨before, j, u, behind, hkeys, hbefore, hj, hu, he, rfl,
      fun _ _ => eq_of_message_badUriPattern⟩
  · intro depth' payload' v' hv' hms'
    rw [decode_of_documents hv' hms', decode_of_documents hv hms]

/-! ## Repeated keys -/

/-- An earlier `documents` does not count, and the first key is given its text later on. -/
def repeatedDocument : List UInt8 :=
  Utf8.encode "\x7b\"documents\": 1, \"documents\": \x7b\"/a/*\": 1, \"/b/*\": \"u\", \"/a/*\": \"v\"\x7d\x7d"

def repeatedMembers : List (Text × Json.Value) :=
  [("/a/*", .integer 1), ("/b/*", .string "u"), ("/a/*", .string "v")]

/-- A text is taken away from the first key, and the second one has none at all. -/
def refusedDocument : List UInt8 :=
  Utf8.encode "\x7b\"documents\": \x7b\"/a/*\": \"u\", \"/b/*\": [], \"/a/*\": 2\x7d\x7d"

def refusedMembers : List (Text × Json.Value) :=
  [("/a/*", .string "u"), ("/b/*", .array []), ("/a/*", .integer 2)]

theorem says_repeatedDocument : Says 3 repeatedDocument
    (.object [("documents", .integer 1), ("documents", .object repeatedMembers)]) :=
  ⟨_, Utf8.decode_encode _, by cbv⟩

theorem says_refusedDocument :
    Says 3 refusedDocument (.object [("documents", .object refusedMembers)]) :=
  ⟨_, Utf8.decode_encode _, by cbv⟩

theorem repeatedDocument_members : (∃ maps, decode 3 repeatedDocument = .ok maps ∧
      maps.map Map.pathPattern = (repeatedMembers.map (·.1)).eraseDups ∧
      ∀ m ∈ maps, Keyed.IsLast m.pathPattern (.string m.uriPattern) repeatedMembers) ∧
    ∃ before j u behind, (refusedMembers.map (·.1)).eraseDups = before ++ j :: behind ∧
      Keyed.IsLast j u refusedMembers ∧ ¬ IsText u ∧
      decode 3 refusedDocument = .error (.badUriPattern j u) := by
  have hrepeated : HasDocuments
      (.object [("documents", .integer 1), ("documents", .object repeatedMembers)])
      repeatedMembers :=
    ⟨_, rfl, [("documents", .integer 1)], [], rfl, List.not_mem_nil⟩
  have hrefused : HasDocuments (.object [("documents", .object refusedMembers)]) refusedMembers :=
    ⟨_, rfl, [], [], rfl, List.not_mem_nil⟩
  have hlast : Keyed.IsLast ("/a/*" : Text) (.integer 2) refusedMembers :=
    ⟨[("/a/*", .string "u"), ("/b/*", .array [])], [], rfl, List.not_mem_nil⟩
  obtain ⟨-, -, hmembers⟩ := decode_members 3 repeatedDocument says_repeatedDocument.ne_tooDeep
  obtain ⟨-, -, hmembers'⟩ := decode_members 3 refusedDocument says_refusedDocument.ne_tooDeep
  have hmaps : decode 3 repeatedDocument = .ok [⟨"/a/*", "v"⟩, ⟨"/b/*", "u"⟩] := by
    rw [says_repeatedDocument.decode_eq]; cbv
  obtain ⟨hmaps', -⟩ := hmembers _ _ says_repeatedDocument hrepeated
  obtain ⟨-, hrefuse, -⟩ := hmembers' _ _ says_refusedDocument hrefused
  obtain ⟨before, j, u, behind, hkeys, -, hj, hu, he, -⟩ :=
    hrefuse _ _ hlast (by rintro ⟨s, hs⟩; cases hs)
  obtain ⟨-, hkeys', hvalues⟩ := hmaps' _ hmaps
  exact ⟨⟨_, hmaps, hkeys', hvalues⟩, before, j, u, behind, hkeys, hj, hu, he⟩

-- surrogates that stand alone are keys of their own, neither joined nor replaced
example : decode 2 (Utf8.encode
      "\x7b\"documents\": \x7b\"\\ud800\": \"u\", \"\\udc00\": \"v\"\x7d\x7d") =
    .ok [⟨.ofList [.surrogate 0], "u"⟩, ⟨.ofList [.surrogate 0x400], "v"⟩] := by
  rw [decode_of_text (Utf8.decode_encode _)]; cbv

example : decode 2 (Utf8.encode
      "\x7b\"documents\": \x7b\"\\ud800\": 1, \"\\ufffd\": \"u\"\x7d\x7d") =
    .error (.badUriPattern (.ofList [.surrogate 0]) (.integer 1)) := by
  rw [decode_of_text (Utf8.decode_encode _)]; cbv

end SourceLink

end DebugMetadata
