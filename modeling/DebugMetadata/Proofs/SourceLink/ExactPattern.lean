import DebugMetadata.Proofs.SourceLink.FirstMatch

/-!
# Patterns without a star

A path pattern without a star is meant for one file. It fits this file with any
choice of slashes, but also every path that goes on behind it, as if it ended in a
star (`exact_pattern_links`).
-/

namespace DebugMetadata

namespace SourceLink

open CodePoint (char)

theorem start_of_not_mem {pattern : List CodePoint} (h : wildcard ∉ pattern) :
    start pattern = FilePath.forward pattern := by
  rw [start, withoutWildcards_of_not_mem h]

theorem decides_singleton_iff {m m' : Map} {path : Text} {suffix : List CodePoint} :
    Decides [m] path m' suffix ↔
    m' = m ∧ FilePath.forward path.toList = start m.pathPattern.toList ++ suffix := by
  unfold Decides
  constructor
  · intro h
    obtain ⟨earlier, later, hmaps, -, hpath⟩ := h
    cases earlier with
    | nil =>
      cases hmaps
      exact ⟨rfl, hpath⟩
    | cons other earlier => simp at hmaps
  · intro h
    obtain ⟨rfl, hpath⟩ := h
    exact ⟨[], [], rfl, by simp, hpath⟩

section
variable {m : Map} (h : wildcard ∉ m.pathPattern.toList) {path : Text}
include h

theorem exact_pattern_decides_iff {suffix : List CodePoint} : Decides [m] path m suffix ↔
    ∃ file rest, path.toList = file ++ rest ∧ FilePath.Equivalent file m.pathPattern.toList ∧
      FilePath.forward rest = suffix := by
  rw [decides_singleton_iff, start_of_not_mem h, FilePath.forward_eq_append_iff]
  simp

theorem exact_pattern_exists_link_iff : (∃ link, resolve [m] path = .ok (some link)) ↔
    m.Splits ∧ ∃ file rest, path.toList = file ++ rest ∧
      FilePath.Equivalent file m.pathPattern.toList := by
  rw [exists_resolve_eq_some_iff]
  constructor
  · intro hlink
    obtain ⟨m', suffix, hdecides, hsplits⟩ := hlink
    obtain ⟨rfl, -⟩ := decides_singleton_iff.mp hdecides
    obtain ⟨file, rest, hpath, hfile, -⟩ := (exact_pattern_decides_iff h).mp hdecides
    exact ⟨hsplits, file, rest, hpath, hfile⟩
  · intro hlink
    obtain ⟨hsplits, file, rest, hpath, hfile⟩ := hlink
    exact ⟨m, _, (exact_pattern_decides_iff h).mpr ⟨file, rest, hpath, hfile, rfl⟩, hsplits⟩

end

/-- A map whose path pattern has no star gives a link for its file, with nothing put
into the URI, and for no other path except those that go on behind the name of the
file. For these the rest of the path goes into the URI. -/
theorem exact_pattern_links {m : Map} (h : wildcard ∉ m.pathPattern.toList) (path : Text) :
    (resolve [m] path = .ok none ↔
      ¬ ∃ file rest, path.toList = file ++ rest ∧ FilePath.Equivalent file m.pathPattern.toList) ∧
    ((∃ link, resolve [m] path = .ok (some link)) ↔
      m.Splits ∧ ∃ file rest, path.toList = file ++ rest ∧
      FilePath.Equivalent file m.pathPattern.toList) ∧
    ((∃ link, resolve [m] path = .ok (some link) ∧ ¬ FilePath.Equivalent path.toList m.pathPattern.toList) ↔
      m.Splits ∧ ∃ file c rest, path.toList = file ++ c :: rest ∧
      FilePath.Equivalent file m.pathPattern.toList) ∧
    ∀ file rest link, path.toList = file ++ rest → FilePath.Equivalent file m.pathPattern.toList →
      resolve [m] path = .ok (some link) →
        Substituted (FilePath.forward rest) m.uriPattern.toList link.uri.toList := by
  refine ⟨?_, exact_pattern_exists_link_iff h, ?_, ?_⟩
  · rw [resolve_eq_none_iff, ← FilePath.forward_prefix_iff, ← start_of_not_mem h]
    simp
  · constructor
    · intro hlink
      obtain ⟨link, hlink, hother⟩ := hlink
      obtain ⟨hsplits, file, rest, hpath, hfile⟩ :=
        (exact_pattern_exists_link_iff h).mp ⟨link, hlink⟩
      cases rest with
      | nil =>
        rw [List.append_nil] at hpath
        exact absurd (hpath ▸ hfile) hother
      | cons c rest => exact ⟨hsplits, file, c, rest, hpath, hfile⟩
    · intro hlonger
      obtain ⟨hsplits, file, c, rest, hpath, hfile⟩ := hlonger
      obtain ⟨link, hlink⟩ :=
        (exact_pattern_exists_link_iff h).mpr ⟨hsplits, file, c :: rest, hpath, hfile⟩
      refine ⟨link, hlink, fun hsame => ?_⟩
      have hlength := hsame.length_eq.trans hfile.length_eq.symm
      rw [hpath, List.length_append, List.length_cons] at hlength
      omega
  · intro file rest link hpath hfile hlink
    obtain ⟨m', suffix, hdecides, huri⟩ := resolve_eq_some_iff.mp hlink
    obtain ⟨rfl, hsuffix⟩ := decides_singleton_iff.mp hdecides
    obtain ⟨-, hrest⟩ :=
      decides_singleton_iff.mp ((exact_pattern_decides_iff h).mpr ⟨file, rest, hpath, hfile, rfl⟩)
    rw [List.append_cancel_left (hrest.symm.trans hsuffix)]
    exact Map.substituted_of_link huri

def fileMap : Map := ⟨"/build/a.cs", "https://example.com/org/a.cs"⟩

theorem fileMap_links : wildcard ∉ fileMap.pathPattern.toList ∧
    (∃ link, resolve [fileMap] "\\build\\a.cs" = .ok (some link)) ∧
    (∃ link, resolve [fileMap] "/build/a.cs.bak" = .ok (some link) ∧
      ¬ FilePath.Equivalent ("/build/a.cs.bak" : Text).toList fileMap.pathPattern.toList) ∧
    resolve [fileMap] "/build/b.cs" = .ok none := by
  have hstar : wildcard ∉ fileMap.pathPattern.toList := by decide
  have hsplits : fileMap.Splits := Uri.exists_path_iff.mp ⟨("/org/a.cs" : Text).toList, rfl⟩
  have hfile : FilePath.Equivalent ("\\build\\a.cs" : Text).toList fileMap.pathPattern.toList :=
    FilePath.forward_eq_forward_iff.mp (by decide)
  have hlonger : FilePath.Equivalent ("/build/a.cs" : Text).toList fileMap.pathPattern.toList :=
    FilePath.forward_eq_forward_iff.mp (by decide)
  obtain ⟨-, hlink, -, -⟩ := exact_pattern_links hstar "\\build\\a.cs"
  obtain ⟨-, -, hother, -⟩ := exact_pattern_links hstar "/build/a.cs.bak"
  obtain ⟨hnone, -, -, -⟩ := exact_pattern_links hstar "/build/b.cs"
  refine ⟨hstar, hlink.mpr ⟨hsplits, _, [], by simp, hfile⟩,
    hother.mpr ⟨hsplits, _, char '.', ("bak" : Text).toList, rfl, hlonger⟩,
    hnone.mpr ?_⟩
  rw [← FilePath.forward_prefix_iff]
  decide

/-- The name of the file goes on, and what it goes on with is put behind the URI. -/
theorem fileMap_longer_path : wildcard ∉ fileMap.pathPattern.toList ∧
    ¬ FilePath.Equivalent ("/build/a.cs.bak" : Text).toList fileMap.pathPattern.toList ∧
    resolve [fileMap] "/build/a.cs.bak" =
      .ok (some ⟨"https://example.com/org/a.cs.bak", "org/a.cs/.bak"⟩) := by
  refine ⟨by decide, fun h => ?_, rfl⟩
  have := h.length_eq
  revert this
  decide

end SourceLink

end DebugMetadata
