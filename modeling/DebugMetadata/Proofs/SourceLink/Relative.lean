import DebugMetadata.Proofs.Result
import DebugMetadata.Proofs.Uri.Percent
import DebugMetadata.SourceLink.Basic

/-!
# Relative paths of links

The path of a link is meant to be relative. It is one unless the rest of the
path starts with a slash, which then replaces the base, or the path of the URI
starts with two slashes, of which one is taken away (`relativePath_absolute_iff`).
-/

namespace DebugMetadata

namespace SourceLink

open CodePoint (char)

/-! ## The map that decides -/

/-- The map is the first one that fits the path, with the rest of the path behind
what it has to start with. -/
def Decides (maps : List Map) (path : Text) (m : Map) (suffix : List CodePoint) : Prop :=
  ∃ earlier later, maps = earlier ++ m :: later ∧
    (∀ other ∈ earlier, ¬ start other.pathPattern.toList <+: FilePath.forward path.toList) ∧
    FilePath.forward path.toList = start m.pathPattern.toList ++ suffix

theorem Map.suffix?_eq_some_iff {m : Map} {path suffix : List CodePoint} :
    m.suffix? path = some suffix ↔ path = start m.pathPattern.toList ++ suffix := by
  unfold Map.suffix?
  by_cases h : start m.pathPattern.toList <+: path
  · obtain ⟨rest, rfl⟩ := h
    simp
  · have hne : path ≠ start m.pathPattern.toList ++ suffix := by
      rintro rfl
      exact h (List.prefix_append _ _)
    simp [h, hne]

theorem Map.suffix?_eq_none_iff {m : Map} {path : List CodePoint} :
    m.suffix? path = none ↔ ¬ start m.pathPattern.toList <+: path := by
  simp [Map.suffix?]

theorem decides_iff {maps : List Map} {path : Text} {m : Map} {suffix : List CodePoint} :
    Decides maps path m suffix ↔
    maps.findSome? (fun m => (m.suffix? (FilePath.forward path.toList)).map (m, ·)) =
      some (m, suffix) := by
  simp only [Decides, List.findSome?_eq_some_iff, Option.map_eq_some_iff, Option.map_eq_none_iff,
    Map.suffix?_eq_some_iff, Map.suffix?_eq_none_iff, Prod.mk.injEq]
  constructor
  · rintro ⟨earlier, later, hmaps, hearlier, hpath⟩
    exact ⟨earlier, m, later, hmaps, ⟨suffix, hpath, rfl, rfl⟩, hearlier⟩
  · rintro ⟨earlier, _, later, hmaps, ⟨_, hpath, rfl, rfl⟩, hearlier⟩
    exact ⟨earlier, later, hmaps, hearlier, hpath⟩

theorem resolve_eq_some_iff {maps : List Map} {path : Text} {link : Link} :
    resolve maps path = .ok (some link) ↔
    ∃ m suffix, Decides maps path m suffix ∧ m.link suffix = .ok link := by
  simp only [decides_iff]
  unfold resolve
  cases maps.findSome? fun m => (m.suffix? (FilePath.forward path.toList)).map (m, ·) with
  | none => simp
  | some found =>
    obtain ⟨m, suffix⟩ := found
    cases hl : m.link suffix with
    | error fault => simp [hl]
    | ok link' => simp [hl]

/-! ## Paths that start at the root -/

theorem head?_relativePath (base suffix : List CodePoint) :
    (relativePath base suffix).head? = some (char '/') ↔
      suffix.head? = some (char '/') ∨ base.head? = some (char '/') := by
  unfold relativePath FilePath.append
  cases suffix with
  | nil => simp
  | cons c suffix =>
    by_cases hc : c = char '/'
    · simp [hc]
    · cases base with
      | nil => simp [hc]
      | cons b base =>
        rw [List.isEmpty_cons, if_neg Bool.false_ne_true, if_neg (by simpa using hc)]
        split
        · simp [hc]
        · simp [hc]

theorem Map.link_eq_ok_iff {m : Map} {suffix : List CodePoint} {link : Link} :
    m.link suffix = .ok link ↔
    ∃ base, basePath m.uriPattern.toList = .ok base ∧
      link = ⟨Text.ofList (substitute m.uriPattern.toList suffix),
        Text.ofList (relativePath base suffix)⟩ := by
  simp only [Map.link, bind_eq_ok_iff, Except.ok.injEq, @eq_comm _ link]

theorem Map.relativePath_of_link {m : Map} {suffix : List CodePoint} {link : Link}
    (h : m.link suffix = .ok link) :
    ∃ base, basePath m.uriPattern.toList = .ok base ∧
      link.relativePath.toList = relativePath base suffix := by
  obtain ⟨base, hbase, rfl⟩ := Map.link_eq_ok_iff.mp h
  exact ⟨base, hbase, rfl⟩

theorem head?_basePath {pattern base : List CodePoint} (h : basePath pattern = .ok base) :
    ∃ p, Uri.path (withoutWildcards pattern) = .ok p ∧
      (base.head? = some (char '/') ↔ [char '/', char '/'] <+: Uri.unescape p) := by
  -- one slash is taken away, so the base starts with one if there were two
  unfold basePath at h
  cases hp : Uri.path (withoutWildcards pattern) with
  | error e =>
    rw [hp] at h
    cases h
  | ok p =>
    rw [hp] at h
    refine ⟨p, rfl, ?_⟩
    obtain rfl := Except.ok.inj h
    cases Uri.unescape p with
    | nil => simp
    | cons a cs =>
      by_cases ha : a = char '/'
      · cases cs with
        | nil => simp [ha]
        | cons b cs => simp [ha, eq_comm]
      · simp [ha, Ne.symm ha]

/-- The path of a link starts with a slash exactly if the rest of the path that the
deciding map leaves does, or the path of its URI starts with two slashes, each
written as it is or as an escape. -/
theorem relativePath_absolute_iff {maps : List Map} {path : Text} {link : Link}
    (h : resolve maps path = .ok (some link)) :
    ∃ m suffix p, Decides maps path m suffix ∧
    Uri.path (withoutWildcards m.uriPattern.toList) = .ok p ∧
      (link.relativePath.toList.head? = some (char '/') ↔
        suffix.head? = some (char '/') ∨
          ∃ a ∈ Uri.slashTexts, ∃ b ∈ Uri.slashTexts, a ++ b <+: p) := by
  obtain ⟨m, suffix, hdecides, hlink⟩ := resolve_eq_some_iff.mp h
  obtain ⟨base, hbase, hrelative⟩ := Map.relativePath_of_link hlink
  obtain ⟨p, hp, hslashes⟩ := head?_basePath hbase
  refine ⟨m, suffix, p, hdecides, hp, ?_⟩
  rw [hrelative, head?_relativePath, hslashes, Uri.slashes_prefix_unescape_iff]

theorem buildMap_relativePath : ∃ m suffix p,
    Decides [⟨"/build/*", "https://raw.githubusercontent.com/org/proj/sha/*"⟩]
      "/build/src/Foo.cs" m suffix ∧
    Uri.path (withoutWildcards m.uriPattern.toList) = .ok p ∧
    suffix.head? ≠ some (char '/') ∧
    ¬ ∃ a ∈ Uri.slashTexts, ∃ b ∈ Uri.slashTexts, a ++ b <+: p := by
  have h : resolve [⟨"/build/*", "https://raw.githubusercontent.com/org/proj/sha/*"⟩]
    "/build/src/Foo.cs" =
      .ok (some ⟨"https://raw.githubusercontent.com/org/proj/sha/src/Foo.cs", "org/proj/sha/src/Foo.cs"⟩) := by rfl
  obtain ⟨m, suffix, p, hdecides, hp, hiff⟩ := relativePath_absolute_iff h
  exact ⟨m, suffix, p, hdecides, hp, not_or.mp (mt hiff.mpr (by decide))⟩

/-- A rest that starts with a slash, two slashes in a URI, and one of two slashes
behind an escape. None of the paths is relative. -/
theorem relativePath_absolute :
    resolve [⟨"/build*", "https://example.com/org/*"⟩] "/build/a.cs" =
      .ok (some ⟨"https://example.com/org//a.cs", "/a.cs"⟩) ∧
    resolve [⟨"/build/*", "https://example.com//org/*"⟩] "/build/a.cs" =
      .ok (some ⟨"https://example.com//org/a.cs", "/org/a.cs"⟩) ∧
    resolve [⟨"/build/*", "https://example.com/%2Forg/*"⟩] "/build/a.cs" =
      .ok (some ⟨"https://example.com/%2Forg/a.cs", "/org/a.cs"⟩) := by
  refine ⟨?_, ?_, ?_⟩
  · rfl
  · rfl
  · rfl

end SourceLink

end DebugMetadata
