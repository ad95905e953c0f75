import DebugMetadata.Proofs.SourceLink.Resolving

/-!
# First match and substitution

The first map that fits a path decides, and what it leaves of the path goes into
its URI pattern as it is (`resolve_first_match`). No other map and no choice of
slashes has a say in the answer.
-/

namespace DebugMetadata

namespace SourceLink

open CodePoint (char)

theorem withoutWildcards_of_not_mem {cs : List CodePoint} (h : wildcard ∉ cs) :
    withoutWildcards cs = cs := by
  unfold withoutWildcards
  rw [List.filter_eq_self]
  intro c hc
  have hne : c ≠ wildcard := fun hstar => h (hstar ▸ hc)
  simpa using hne

/-! ## Substitution -/

/-- The rest of a path stands in the place of the first star of a pattern, or behind
a pattern without one. -/
inductive Substituted (suffix : List CodePoint) : List CodePoint → List CodePoint → Prop
  | star {before behind : List CodePoint} : wildcard ∉ before →
      Substituted suffix (before ++ wildcard :: behind) (before ++ suffix ++ behind)
  | plain {pattern : List CodePoint} : wildcard ∉ pattern →
      Substituted suffix pattern (pattern ++ suffix)

theorem substitute_star {before : List CodePoint} (h : wildcard ∉ before)
    (behind suffix : List CodePoint) :
    substitute (before ++ wildcard :: behind) suffix = before ++ suffix ++ behind := by
  have hspan :
      (before ++ wildcard :: behind).span (· != wildcard) = (before, wildcard :: behind) := by
    rw [Uri.span_ne_eq_iff]
    simp [h]
  unfold substitute
  rw [hspan]

theorem substitute_plain {pattern : List CodePoint} (h : wildcard ∉ pattern)
    (suffix : List CodePoint) : substitute pattern suffix = pattern ++ suffix := by
  have hspan : pattern.span (· != wildcard) = (pattern, []) := by
    rw [Uri.span_ne_eq_iff]
    simp [h]
  unfold substitute
  rw [hspan]

theorem substituted_substitute (pattern suffix : List CodePoint) :
    Substituted suffix pattern (substitute pattern suffix) := by
  by_cases h : wildcard ∈ pattern
  · obtain ⟨before, behind, rfl, hbefore⟩ := List.eq_append_cons_of_mem h
    rw [substitute_star hbefore]
    exact .star hbefore
  · rw [substitute_plain h]
    exact .plain h

theorem Map.substituted_of_link {m : Map} {suffix : List CodePoint} {link : Link}
    (h : m.link suffix = .ok link) : Substituted suffix m.uriPattern.toList link.uri.toList := by
  obtain ⟨base, -, rfl⟩ := Map.link_eq_ok_iff.mp h
  rw [Text.toList_ofList]
  exact substituted_substitute _ _

theorem Map.link_of_fault {m : Map} {fault : Uri.Fault}
    (h : Uri.path (withoutWildcards m.uriPattern.toList) = .error fault)
    (suffix : List CodePoint) : m.link suffix = .error fault := by
  unfold Map.link basePath
  dsimp only
  rw [h]; rfl

/-! ## One map after the other -/

theorem resolve_cons (m : Map) (maps : List Map) (path : Text) : resolve (m :: maps) path =
    match m.suffix? (FilePath.forward path.toList) with
    | some suffix => ((m.link suffix).map some).mapError .badUri
    | none => resolve maps path := by
  unfold resolve
  rw [List.findSome?_cons]
  cases m.suffix? (FilePath.forward path.toList) with
  | none => rfl
  | some suffix =>
    cases hlink : m.link suffix with
    | error fault => simp [hlink, Except.map, Except.mapError]
    | ok link => simp [hlink, Except.map, Except.mapError]

section
variable {maps : List Map} {path : Text} {m : Map} {suffix : List CodePoint}

theorem resolve_of_decides (h : Decides maps path m suffix) :
    resolve maps path = ((m.link suffix).map some).mapError .badUri := by
  obtain ⟨earlier, later, rfl, hearlier, hpath⟩ := h
  induction earlier with
  | nil => rw [List.nil_append, resolve_cons, Map.suffix?_eq_some_iff.mpr hpath]
  | cons other earlier ih =>
    rw [List.forall_mem_cons] at hearlier
    rw [List.cons_append, resolve_cons, Map.suffix?_eq_none_iff.mpr hearlier.1]
    exact ih hearlier.2

theorem Decides.around (h : Decides maps path m suffix) {earlier : List Map} (later : List Map)
    (hearlier : ∀ other ∈ earlier, ¬ start other.pathPattern.toList <+: FilePath.forward path.toList) :
    Decides (earlier ++ m :: later) path m suffix := by
  obtain ⟨-, -, -, -, hpath⟩ := h
  exact ⟨earlier, later, rfl, hearlier, hpath⟩

theorem exists_decides_of_prefix
    (h : ∃ m ∈ maps, start m.pathPattern.toList <+: FilePath.forward path.toList) :
    ∃ m suffix, Decides maps path m suffix := by
  induction maps with
  | nil => simp at h
  | cons first maps ih =>
    by_cases hfirst : start first.pathPattern.toList <+: FilePath.forward path.toList
    · obtain ⟨suffix, hsuffix⟩ := hfirst
      exact ⟨first, suffix, [], maps, rfl, by simp, hsuffix.symm⟩
    · simp only [List.exists_mem_cons_iff, hfirst, false_or] at h
      obtain ⟨m, suffix, earlier, later, rfl, hearlier, hpath⟩ := ih h
      exact ⟨m, suffix, first :: earlier, later, rfl,
        List.forall_mem_cons.mpr ⟨hfirst, hearlier⟩, hpath⟩

end

/-! ## Exchanged slashes -/

structure Map.Equivalent (m m' : Map) : Prop where
  path : FilePath.Equivalent m.pathPattern.toList m'.pathPattern.toList
  uri : m.uriPattern = m'.uriPattern

theorem Map.equivalent_refl (m : Map) : m.Equivalent m :=
  ⟨FilePath.forward_eq_forward_iff.mp rfl, rfl⟩

theorem start_eq (pattern : List CodePoint) :
    start pattern = withoutWildcards (FilePath.forward pattern) := by
  have hstar : (fun c => c != wildcard) ∘ (fun c => if c = char '\\' then char '/' else c) =
      fun c => c != wildcard := by
    funext c
    by_cases hc : c = char '\\'
    · subst hc
      decide
    · simp [hc]
  rw [start, withoutWildcards, withoutWildcards, FilePath.forward, FilePath.forward,
    List.filter_map, hstar]

theorem start_congr {cs ds : List CodePoint} (h : FilePath.Equivalent cs ds) :
    start cs = start ds := by
  rw [start_eq, start_eq, FilePath.forward_eq_forward_iff.mpr h]

theorem resolve_congr {maps maps' : List Map} {path path' : Text}
    (hmaps : List.Forall₂ Map.Equivalent maps maps')
    (hpath : FilePath.Equivalent path.toList path'.toList) :
      resolve maps path = resolve maps' path' := by
  induction hmaps with
  | nil => rfl
  | @cons m m' _ _ hm _ ih =>
    have hsuffix :
        m.suffix? (FilePath.forward path.toList) = m'.suffix? (FilePath.forward path'.toList) := by
      unfold Map.suffix?
      rw [start_congr hm.path, FilePath.forward_eq_forward_iff.mpr hpath]
    have hlink : m.link = m'.link := by
      funext suffix
      unfold Map.link
      rw [hm.uri]
    rw [resolve_cons, resolve_cons, hsuffix, hlink, ih]

/-! ## The answer -/

/-- There is no answer exactly if no map fits. Otherwise the first map that fits
gives the answer: the rest of the path in its URI pattern, or the fault of this URI.
What else is in the list does not matter, nor which slashes are used. -/
theorem resolve_first_match (maps : List Map) (path : Text) :
    (resolve maps path = .ok none ↔ ∀ m ∈ maps, ¬ start m.pathPattern.toList <+: FilePath.forward path.toList) ∧
    ((∃ m suffix, Decides maps path m suffix) ↔
      ∃ m ∈ maps, start m.pathPattern.toList <+: FilePath.forward path.toList) ∧
    (∀ m suffix, Decides maps path m suffix →
      (∀ p, Uri.path (withoutWildcards m.uriPattern.toList) = .ok p →
        ∃ link, resolve maps path = .ok (some link) ∧
        Substituted suffix m.uriPattern.toList link.uri.toList) ∧
      (∀ fault, Uri.path (withoutWildcards m.uriPattern.toList) = .error fault →
        resolve maps path = .error (.badUri fault)) ∧
      ∀ earlier later,
        (∀ other ∈ earlier, ¬ start other.pathPattern.toList <+: FilePath.forward path.toList) →
        resolve (earlier ++ m :: later) path = resolve maps path) ∧
    ∀ maps' path', List.Forall₂ Map.Equivalent maps maps' →
      FilePath.Equivalent path.toList path'.toList →
      resolve maps path = resolve maps' path' := by
  refine ⟨resolve_eq_none_iff maps path, ?_, ?_, fun _ _ => resolve_congr⟩
  · constructor
    · intro h
      obtain ⟨m, suffix, earlier, later, rfl, -, hpath⟩ := h
      exact ⟨m, by simp, suffix, hpath.symm⟩
    · exact exists_decides_of_prefix
  · intro m suffix h
    refine ⟨?_, ?_, ?_⟩
    · intro p hp
      obtain ⟨link, hlink⟩ := (m.exists_link_iff suffix).mpr (Uri.exists_path_iff.mp ⟨p, hp⟩)
      exact ⟨link, resolve_eq_some_iff.mpr ⟨m, suffix, h, hlink⟩, Map.substituted_of_link hlink⟩
    · intro fault hfault
      rw [resolve_of_decides h, Map.link_of_fault hfault]; rfl
    · intro earlier later hearlier
      rw [resolve_of_decides h, resolve_of_decides (h.around later hearlier)]

def starredMap : Map := ⟨"C:\\src\\**", "https://example.com/api/*?raw=*"⟩

/-- The first map fits a longer start only, and the last one fits every path. -/
def starredMaps : List Map :=
  [⟨"C:/src/ext/*", "https://example.com/ext/*"⟩, starredMap, ⟨"*", "https://[host/"⟩]

theorem starredMaps_first_match :
    Decides starredMaps "C:\\src/lib*.cs" starredMap ("lib*.cs" : Text).toList ∧
    (∃ link, resolve starredMaps "C:\\src/lib*.cs" = .ok (some link) ∧
      Substituted ("lib*.cs" : Text).toList starredMap.uriPattern.toList link.uri.toList) ∧
    resolve [starredMap] "C:\\src/lib*.cs" = resolve starredMaps "C:\\src/lib*.cs" ∧
    resolve starredMaps "C:\\src/lib*.cs" = resolve starredMaps "C:/src\\lib*.cs" := by
  obtain ⟨-, -, hanswer, hslashes⟩ := resolve_first_match starredMaps "C:\\src/lib*.cs"
  have hdecides : Decides starredMaps "C:\\src/lib*.cs" starredMap ("lib*.cs" : Text).toList :=
    ⟨[⟨"C:/src/ext/*", "https://example.com/ext/*"⟩], _, rfl, by decide, by decide⟩
  obtain ⟨hlink, -, haround⟩ := hanswer _ _ hdecides
  refine ⟨hdecides, hlink ("/api/" : Text).toList (by rfl), haround [] [] (by simp),
    hslashes _ _ ?_ ?_⟩
  · simp [starredMaps, Map.equivalent_refl]
  · exact FilePath.forward_eq_forward_iff.mp (by decide)

end SourceLink

end DebugMetadata
