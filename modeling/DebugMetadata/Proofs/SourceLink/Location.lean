import DebugMetadata.Proofs.SourceLink.FirstMatch
import DebugMetadata.Proofs.Uri.Site

/-!
# Two ways to one location

The URI of a link is put together from the text of the pattern, its relative path
from the path of the pattern read as a URI. Below a plain directory of a site both
name the same place (`uri_eq_site_append`).
-/

namespace DebugMetadata

namespace SourceLink

open CodePoint (char)

theorem Map.exists_link_of_basePath {m : Map} {base : List CodePoint}
    (h : basePath m.uriPattern.toList = .ok base)
    (suffix : List CodePoint) :
    ∃ link, m.link suffix = .ok link ∧ link.uri.toList = substitute m.uriPattern.toList suffix ∧
      link.relativePath.toList = relativePath base suffix :=
  ⟨_, Map.link_eq_ok_iff.mpr ⟨base, h, rfl⟩, rfl, rfl⟩

theorem relativePath_directory {base suffix : List CodePoint} (hbase : Uri.IsDirectory base)
    (h : suffix.head? ≠ some (char '/')) : relativePath base suffix = base ++ suffix := by
  have hend : (base.isEmpty || base.getLast? == some (char '/')) = true := by
    rcases hbase with rfl | hbase
    · rfl
    · simp [hbase.2]
  unfold relativePath FilePath.append
  rw [if_neg h, if_pos hend]
  cases suffix with
  | nil => simp
  | cons c suffix => simp

section
variable {site base pattern : List CodePoint} (hsite : Uri.IsSite site)
    (hbase : Uri.IsDirectory base)
  (hpattern : pattern = site ++ base ++ [wildcard] ∨ pattern = site ++ base)
include hsite hbase

theorem wildcard_not_mem_directory : wildcard ∉ site ++ base := by
  intro h
  rcases List.mem_append.mp h with h | h
  · have := hsite.isPathChar_or_colon _ h
    revert this
    decide
  · exact Uri.not_mem_of_isPathChar hbase.isPathChar (by decide) h

include hpattern

theorem substitute_directory (suffix : List CodePoint) :
    substitute pattern suffix = site ++ (base ++ suffix) := by
  have hstar := wildcard_not_mem_directory hsite hbase
  rcases hpattern with rfl | rfl
  · rw [substitute_star hstar]
    simp
  · rw [substitute_plain hstar, List.append_assoc]

theorem withoutWildcards_directory : withoutWildcards pattern = site ++ base := by
  have hkeep := withoutWildcards_of_not_mem (wildcard_not_mem_directory hsite hbase)
  rcases hpattern with rfl | rfl
  · have hlast : withoutWildcards [wildcard] = [] := by decide
    rw [withoutWildcards, List.filter_append, ← withoutWildcards, ← withoutWildcards, hkeep, hlast,
      List.append_nil]
  · exact hkeep

theorem basePath_directory : basePath pattern = .ok base := by
  -- one slash is taken away, which is the one at the end of the site
  have hescapes : char '%' ∉ char '/' :: base := by
    simp [Uri.not_mem_of_isPathChar hbase.isPathChar (show Uri.isPathChar (char '%') = false by decide)]
  unfold basePath
  rw [withoutWildcards_directory hsite hbase hpattern, Uri.path_site_append hsite hbase.isPathChar]
  show Except.ok _ = _
  rw [Uri.unescape_of_not_mem hescapes]
  simp

end

/-- The URI of a link is the site with the relative path behind it, if the map that
decides points to a directory of this site and leaves a relative path. -/
theorem uri_eq_site_append {maps : List Map} {path : Text} {m : Map}
    {suffix site base : List CodePoint}
    (hdecides : Decides maps path m suffix) (hsite : Uri.IsSite site) (hbase : Uri.IsDirectory base)
    (hpattern : m.uriPattern.toList = site ++ base ++ [wildcard] ∨ m.uriPattern.toList = site ++ base)
    (hsuffix : suffix.head? ≠ some (char '/')) :
    ∃ link, resolve maps path = .ok (some link) ∧ link.relativePath.toList = base ++ suffix ∧
      link.uri.toList = site ++ link.relativePath.toList := by
  obtain ⟨link, hlink, huri, hrelative⟩ :=
    Map.exists_link_of_basePath (basePath_directory hsite hbase hpattern) suffix
  rw [relativePath_directory hbase hsuffix] at hrelative
  refine ⟨link, resolve_eq_some_iff.mpr ⟨m, suffix, hdecides, hlink⟩, hrelative, ?_⟩
  rw [huri, hrelative, substitute_directory hsite hbase hpattern]

theorem uri_eq_site_append_query : ∃ link,
    resolve [⟨"/build/*", "https://example.com/org/sha/*"⟩] "/build/a?b#c%2F*/d.cs" =
      .ok (some link) ∧
      link.relativePath.toList = ("org/sha/" : Text).toList ++ ("a?b#c%2F*/d.cs" : Text).toList ∧
      link.uri.toList = ("https://example.com/" : Text).toList ++ link.relativePath.toList := by
  have hdecides : Decides [⟨"/build/*", "https://example.com/org/sha/*"⟩] "/build/a?b#c%2F*/d.cs"
      ⟨"/build/*", "https://example.com/org/sha/*"⟩ ("a?b#c%2F*/d.cs" : Text).toList :=
    ⟨[], [], rfl, by simp, by decide⟩
  have hsite : Uri.IsSite ("https://example.com/" : Text).toList :=
    @Uri.IsSite.https ("example.com" : Text).toList (by decide)
  have hbase : Uri.IsDirectory ("org/sha/" : Text).toList := .inr ⟨by decide, by decide⟩
  exact uri_eq_site_append hdecides hsite hbase (.inl rfl) (by decide)

end SourceLink

end DebugMetadata
