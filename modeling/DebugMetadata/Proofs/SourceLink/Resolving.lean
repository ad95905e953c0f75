import DebugMetadata.Proofs.FilePath
import DebugMetadata.Proofs.SourceLink.Failure
import DebugMetadata.Proofs.SourceLink.Relative
import DebugMetadata.Proofs.Uri.Authority

/-!
# Failures to resolve a path

A path is resolved unless it is decided by a map whose URI is refused. A document
resolves every path exactly if the URI of each map is accepted that decides a path
at all (`resolve_failures`); decoding a document looks at no URI.
-/

namespace DebugMetadata

namespace SourceLink

/-! ## Links -/

/-- The URI pattern of a map, without its stars, has no authority or one that fits. -/
def Map.Splits (m : Map) : Prop := ∀ authority,
    Uri.HasAuthority (withoutWildcards m.uriPattern.toList) authority → Uri.Fits authority

theorem Map.exists_link_iff (m : Map) (suffix : List CodePoint) :
    (∃ link, m.link suffix = .ok link) ↔ m.Splits := by
  unfold Map.Splits
  rw [← Uri.exists_path_iff]
  unfold Map.link basePath
  cases hp : Uri.path (withoutWildcards m.uriPattern.toList) with
  | error fault => simp [hp, bind, Except.bind]
  | ok p => simp [hp, bind, Except.bind]

theorem Map.exists_fault_iff (m : Map) (suffix : List CodePoint) :
    (∃ fault, m.link suffix = .error fault) ↔ ¬ m.Splits := by
  rw [← m.exists_link_iff suffix]
  cases m.link suffix with
  | error fault => simp
  | ok link => simp

theorem Map.splits_of_plain {m : Map} (h : Uri.IsPlain m.uriPattern.toList) : m.Splits := by
  apply Uri.exists_path_iff.mp
  apply Uri.exists_path_of_plain
  intro c hc
  exact h c (List.mem_of_mem_filter hc)

/-! ## Paths -/

section
variable (maps : List Map) (path : Text)

theorem resolve_eq_none_iff : resolve maps path = .ok none ↔
    ∀ m ∈ maps, ¬ start m.pathPattern.toList <+: FilePath.forward path.toList := by
  have hnone :
    (maps.findSome? fun m => (m.suffix? (FilePath.forward path.toList)).map (m, ·)) = none ↔
      ∀ m ∈ maps, ¬ start m.pathPattern.toList <+: FilePath.forward path.toList := by
    simp [Map.suffix?_eq_none_iff]
  rw [← hnone]
  unfold resolve
  split
  · next h => simp [h]
  · next m suffix h =>
    cases m.link suffix with
    | error fault => simp [h]
    | ok link => simp [h]

theorem resolve_eq_error_iff (e : Error) : resolve maps path = .error e ↔
    ∃ m suffix fault, Decides maps path m suffix ∧ m.link suffix = .error fault ∧
      e = .badUri fault := by
  simp only [decides_iff]
  unfold resolve
  cases maps.findSome? fun m => (m.suffix? (FilePath.forward path.toList)).map (m, ·) with
  | none => simp
  | some found =>
    obtain ⟨m, suffix⟩ := found
    cases hl : m.link suffix with
    | error fault => simp [hl, eq_comm]
    | ok link => simp [hl]

theorem exists_resolve_eq_some_iff : (∃ link, resolve maps path = .ok (some link)) ↔
    ∃ m suffix, Decides maps path m suffix ∧ m.Splits := by
  simp only [resolve_eq_some_iff]
  constructor
  · intro h
    obtain ⟨link, m, suffix, hdecides, hlink⟩ := h
    exact ⟨m, suffix, hdecides, (m.exists_link_iff suffix).mp ⟨link, hlink⟩⟩
  · intro h
    obtain ⟨m, suffix, hdecides, hsplits⟩ := h
    obtain ⟨link, hlink⟩ := (m.exists_link_iff suffix).mpr hsplits
    exact ⟨link, m, suffix, hdecides, hlink⟩

theorem exists_resolve_eq_error_iff :
    (∃ e, resolve maps path = .error e) ↔ ∃ m suffix, Decides maps path m suffix ∧ ¬ m.Splits := by
  simp only [resolve_eq_error_iff]
  constructor
  · intro h
    obtain ⟨e, m, suffix, fault, hdecides, hfault, -⟩ := h
    exact ⟨m, suffix, hdecides, (m.exists_fault_iff suffix).mp ⟨fault, hfault⟩⟩
  · intro h
    obtain ⟨m, suffix, hdecides, hsplits⟩ := h
    obtain ⟨fault, hfault⟩ := (m.exists_fault_iff suffix).mpr hsplits
    exact ⟨_, m, suffix, fault, hdecides, hfault, rfl⟩

theorem resolve_failsOnly : FailsOnly [.invalidUri] (resolve maps path) := by
  intro e he
  obtain ⟨m, suffix, fault, -, -, rfl⟩ := (resolve_eq_error_iff maps path e).mp he
  simp [Error.kind]

end

/-! ## Documents -/

theorem exists_decides_iff {maps : List Map} {m : Map} :
    (∃ path suffix, Decides maps path m suffix) ↔
    ∃ earlier later, maps = earlier ++ m :: later ∧
      ∀ other ∈ earlier, ¬ start other.pathPattern.toList <+: start m.pathPattern.toList := by
  constructor
  · intro h
    obtain ⟨path, suffix, earlier, later, hmaps, hearlier, hpath⟩ := h
    refine ⟨earlier, later, hmaps, fun other hother hprefix => hearlier other hother ?_⟩
    rw [hpath]
    exact hprefix.trans (List.prefix_append _ _)
  · intro h
    obtain ⟨earlier, later, hmaps, hearlier⟩ := h
    -- what the map has to start with is a path itself
    have hpath : FilePath.forward m.literal.toList = start m.pathPattern.toList := by
      rw [Map.literal, Text.toList_ofList, start, FilePath.forward_forward]
    refine ⟨m.literal, [], earlier, later, hmaps, ?_, ?_⟩
    · rw [hpath]
      exact hearlier
    · rw [hpath, List.append_nil]

theorem exists_resolve_of_plain {maps : List Map} (h : ∀ m ∈ maps, Uri.IsPlain m.uriPattern.toList)
    (path : Text) : ∃ answer, resolve maps path = .ok answer := by
  cases hr : resolve maps path with
  | ok answer => exact ⟨answer, rfl⟩
  | error e =>
    obtain ⟨m, suffix, ⟨earlier, later, rfl, -⟩, hsplits⟩ :=
      (exists_resolve_eq_error_iff maps path).mp ⟨e, hr⟩
    exact absurd (Map.splits_of_plain (h m (by simp))) hsplits

/-- A path is resolved, or it fails for the URI of the map that decides it and for
nothing else. A document resolves every path exactly if a URI is refused in it
only behind a map that fits all that the map of the URI fits. -/
theorem resolve_failures (maps : List Map) :
    (∀ path, FailsOnly [.invalidUri] (resolve maps path) ∧
      ((∃ e, resolve maps path = .error e) ↔ ∃ m suffix, Decides maps path m suffix ∧ ¬ m.Splits) ∧
      ((∃ link, resolve maps path = .ok (some link)) ↔
        ∃ m suffix, Decides maps path m suffix ∧ m.Splits) ∧
      (resolve maps path = .ok none ↔ ∀ m ∈ maps, ¬ start m.pathPattern.toList <+: FilePath.forward path.toList)) ∧
    ((∀ path, ∃ answer, resolve maps path = .ok answer) ↔
      ∀ earlier m later, maps = earlier ++ m :: later →
      (∀ other ∈ earlier, ¬ start other.pathPattern.toList <+: start m.pathPattern.toList) →
        m.Splits) := by
  have hfails : ∀ path, (∃ answer, resolve maps path = .ok answer) ↔
      ¬ ∃ e, resolve maps path = .error e := by
    intro path
    cases resolve maps path with
    | error e => simp
    | ok answer => simp
  refine ⟨fun path => ⟨resolve_failsOnly maps path, exists_resolve_eq_error_iff maps path,
    exists_resolve_eq_some_iff maps path, resolve_eq_none_iff maps path⟩, ?_⟩
  simp only [hfails, exists_resolve_eq_error_iff]
  constructor
  · intro h earlier m later hmaps hearlier
    obtain ⟨path, suffix, hdecides⟩ := exists_decides_iff.mpr ⟨earlier, later, hmaps, hearlier⟩
    by_contra hsplits
    exact h path ⟨m, suffix, hdecides, hsplits⟩
  · intro h path hfail
    obtain ⟨m, suffix, hdecides, hsplits⟩ := hfail
    obtain ⟨earlier, later, hmaps, hearlier⟩ := exists_decides_iff.mp ⟨path, suffix, hdecides⟩
    exact hsplits (h earlier m later hmaps hearlier)

def bracketDocument : List UInt8 :=
  Utf8.encode "\x7b\"documents\": \x7b\"/build/*\": \"https://[host/*\"\x7d\x7d"

/-- A document is accepted and does not resolve a path that its first map fits. -/
theorem bracketDocument_fails : ∃ maps e, decode 2 bracketDocument = .ok maps ∧
    resolve maps "/build/a.cs" = .error e ∧ e.kind = .invalidUri := by
  have hmaps : decode 2 bracketDocument = .ok [⟨"/build/*", "https://[host/*"⟩] := by
    rw [bracketDocument, decode_of_text (Utf8.decode_encode _)]
    cbv
  exact ⟨_, .badUri .oneBracket, hmaps, by rfl, by simp [Error.kind]⟩

end SourceLink

end DebugMetadata
