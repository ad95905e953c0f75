import DebugMetadata.Proofs.Json.Written
import DebugMetadata.Proofs.SourceLink.Members

/-!
# Written documents

The document of some maps, written in ASCII, is decoded to the same maps in the
same order, whatever characters their patterns are made of (`decode_written`).
-/

namespace DebugMetadata

namespace SourceLink

/-- The text of the document that has some entries, path patterns with their URI patterns. -/
def documentText (entries : List (String × String)) : String :=
  String.ofList
    (Json.writtenObject (Json.writtenObject Json.writtenString) [("documents", entries)])

def mapsFor (entries : List (String × String)) : List Map :=
  entries.map fun (path, uri) => ⟨.ofString path, .ofString uri⟩

theorem parse_documentText {depth : Nat} (hdepth : 2 ≤ depth) (entries : List (String × String)) :
    Json.parse depth (documentText entries) =
      .ok (.object [("documents", .object (membersOf (mapsFor entries)))]) := by
  obtain ⟨depth, rfl⟩ := Nat.exists_eq_add_of_le' hdepth
  have hwrites := Json.writes_object (depth + 1)
    (Json.writes_object depth (Json.writes_string depth)) [("documents", entries)]
  have hread := hwrites.reads []
  have hskip := hwrites.skipBlanks []
  rw [List.append_nil] at hread hskip
  have hall : Json.readAll (depth + 2) (documentText entries).toList =
      .ok (.object [("documents", .object (membersOf (mapsFor entries)))]) := by
    rw [documentText, String.toList_ofList, Json.readAll, if_neg (by simp [Json.writtenObject]),
      hskip, hread]
    simp [Json.skipBlanks, membersOf, mapsFor]
  rw [Json.parse, hall]; rfl

theorem mapsOf_members {maps : List Map} (h : (maps.map Map.pathPattern).Nodup) :
    mapsOf (.object [("documents", .object (membersOf maps))]) = .ok maps := by
  have hdocuments :
    HasDocuments (.object [("documents", .object (membersOf maps))]) (membersOf maps) :=
    ⟨_, rfl, [], [], rfl, List.not_mem_nil⟩
  have hkeys : ((membersOf maps).map (·.1)).Nodup := by
    rwa [map_fst_membersOf]
  rw [hdocuments.mapsOf_eq, Keyed.effective_of_nodup hkeys, mapM_mapOf_eq_ok_iff]

theorem nodup_mapsFor {entries : List (String × String)} (h : (entries.map (·.1)).Nodup) :
    ((mapsFor entries).map Map.pathPattern).Nodup := by
  have hpaths : (mapsFor entries).map Map.pathPattern = (entries.map (·.1)).map Text.ofString := by
    simp [mapsFor]
  rw [hpaths]
  exact h.map fun _ _ => Text.ofString_inj.mp

/-- The document of entries with different path patterns is decoded to their maps, at
every depth that lets one object stand in another. -/
theorem decode_written {depth : Nat} (hdepth : 2 ≤ depth) (entries : List (String × String))
    (h : (entries.map (·.1)).Nodup) :
    decode depth (Utf8.encode (documentText entries)) = .ok (mapsFor entries) := by
  rw [decode_of_text (Utf8.decode_encode _), parse_documentText hdepth]
  exact mapsOf_members (nodup_mapsFor h)

/-- Patterns with separators and quotes that need escapes, a control, a mark and
characters of more than one code unit. -/
def oddEntries : List (String × String) :=
  [("C:\\src\\*", "https://example.com/\"q\"/*"), ("/\x01\t\x7f/*", "https://example.com/é/😀/*"),
    ("\ufeff*", "")]

theorem decode_oddDocument : 2 ≤ 100 ∧ (oddEntries.map (·.1)).Nodup ∧
    decode 100 (Utf8.encode (documentText oddEntries)) = .ok (mapsFor oddEntries) :=
  ⟨by decide, by decide, decode_written (by decide) oddEntries (by decide)⟩

example : documentText [("C:\\*", "é\n😀\x7f*")] =
    "\x7b\"documents\": \x7b\"C:\\\\*\": \"\\u00e9\\n\\ud83d\\ude00\\u007f*\"\x7d\x7d" := by
  decide

end SourceLink

end DebugMetadata
