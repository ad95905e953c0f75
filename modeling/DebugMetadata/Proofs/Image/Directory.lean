import DebugMetadata.Proofs.Image.Headers
import DebugMetadata.Proofs.Image.Opened

/-!
# Directories of any headers

The headers behind the root of a file, whatever they are, give a directory of their
streams, in which a name that comes up again keeps its place and takes the new extent.
A file that ends before all headers that its root counts gives none
(`directory_of_headers`).
-/

namespace DebugMetadata

/-! ## Names -/

namespace StreamHeader

/-- Replaces every `#-` by `#~`, from left to right. -/
def renamed : List Char → List Char
  | [] => []
  | '#' :: '-' :: cs => '#' :: '~' :: renamed cs
  | c :: cs => c :: renamed cs

theorem zipWith_eq_renamed (cs : List Char) (before : Char)
    (h : before = '#' → cs.head? ≠ some '-') :
    List.zipWith (fun before c => if before = '#' ∧ c = '-' then '~' else c) (before :: cs) cs =
      renamed cs := by
  -- whether a dash is replaced can be seen from the character before it
  induction cs using renamed.induct generalizing before with
  | case1 => rfl
  | case2 cs ih =>
    have hdash : '-' = '#' → cs.head? ≠ some '-' := fun he => absurd he (by decide)
    rw [renamed, List.zipWith_cons_cons, List.zipWith_cons_cons, ih '-' hdash, if_neg (by simp),
      if_pos ⟨rfl, rfl⟩]
  | case3 c cs hne ih =>
    have hcut : ¬ (before = '#' ∧ c = '-') := fun ⟨hb, hc⟩ => h hb (by rw [hc]; rfl)
    rw [renamed, List.zipWith_cons_cons, if_neg hcut, ih c]
    · rintro rfl hhead
      obtain ⟨rest, rfl⟩ := List.head?_eq_some_iff.mp hhead
      exact hne rest rfl rfl
    · exact hne

theorem unified_eq_renamed (cs : List Char) : unified cs = renamed cs :=
  zipWith_eq_renamed cs '-' fun he => absurd he (by decide)

/-- What a stream is called: its name read as UTF-8, each `#-` in it replaced. -/
def key (h : StreamHeader) : String := String.ofList (renamed (Utf8.decodeLossy h.name).toList)

theorem streamName_eq_key (h : StreamHeader) : h.streamName = h.key := by
  rw [streamName, unified_eq_renamed, key]

end StreamHeader

/-- The extents of streams by name, after the headers have been gone through in order. -/
structure Directory.Lists (d : Directory) (hs : List StreamHeader) : Prop where
  inserted : d = hs.foldl (fun found h => Keyed.insert h.key h.extent found) []
  names : d.map (·.1) = (hs.map StreamHeader.key).eraseDups
  extents : ∀ name extent, (name, extent) ∈ d ↔
    Keyed.IsLast name extent (hs.map fun h => (h.key, h.extent))

theorem Directory.lists_ofHeaders (hs : List StreamHeader) : (ofHeaders hs).Lists hs := by
  have heq : ofHeaders hs = Keyed.effective (hs.map fun h => (h.key, h.extent)) := by
    simp only [ofHeaders, StreamHeader.streamName_eq_key]
  refine ⟨?_, ?_, fun name extent => ?_⟩
  · rw [heq, Keyed.effective, List.foldl_map]
  · rw [heq, Keyed.map_fst_effective, List.map_map]
    rfl
  · rw [heq, Keyed.mem_effective_iff]

/-! ## Opening -/

namespace Image

theorem ofStreams_ne_truncatedDirectory (root : Root) (d : Directory)
    (stream? : String → Option Block) :
    ofStreams root d stream? ≠ .error .truncatedDirectory := by
  intro h
  unfold ofStreams at h
  split at h
  · cases h
  · cases h
  · split at h
    · obtain ⟨number, he⟩ := TablePlace.eq_unsupportedTable_of_locate (map_eq_error_iff.mp h)
      cases he
    · cases h

section
variable {file : Block} {root : Root} (hsignature : isMetadata file = true)
    (hroot : Root.read? file = some root)
include hsignature hroot

theorem read_of_directory {d : Directory} (hd : Directory.read? file root = some d) :
    read file = ofStreams root d (d.stream? file) := by
  rw [read, if_pos hsignature, hroot]
  simp only [hd]

theorem read_eq_truncatedDirectory_iff :
    read file = .error .truncatedDirectory ↔ Directory.read? file root = none := by
  cases hd : Directory.read? file root with
  | none =>
    rw [read, if_pos hsignature, hroot]
    simp only [hd]
  | some d =>
    rw [read_of_directory hsignature hroot hd]
    simp [ofStreams_ne_truncatedDirectory]

end

/-- Whatever headers a file has behind its root, with a version field of any length,
its directory lists their streams. There is no directory, and opening the file fails,
exactly if the file ends before the headers that its root counts. -/
theorem directory_of_headers (file : Block) :
    (∀ root, isMetadata file = true ∧ Root.read? file = some root ↔
      root.Fits ∧ ∃ behind, file.toList = root.written ++ behind) ∧
    (∀ root behind, root.Fits → file.toList = root.written ++ behind →
      (∀ hs rest, hs.length = root.streamCount → StreamHeader.Starts hs behind rest →
        StreamHeader.readFrom? file root.streamCount root.size [] = some hs ∧
          ∃ d, Directory.read? file root = some d ∧ d.Lists hs ∧
          read file = ofStreams root d (d.stream? file) ∧
            ∀ m, read file = .ok m → m.directory = d) ∧
      (StreamHeader.EndsEarly root.streamCount behind ∨
        ∃ hs rest, hs.length = root.streamCount ∧ StreamHeader.Starts hs behind rest) ∧
      (Directory.read? file root = none ↔ StreamHeader.EndsEarly root.streamCount behind) ∧
      (read file = .error .truncatedDirectory ↔ StreamHeader.EndsEarly root.streamCount behind)) ∧
    Error.truncatedDirectory.kind = .invalidMetadata := by
  refine ⟨fun root => Root.read?_eq_some_iff, fun root behind hf hb => ?_, rfl⟩
  obtain ⟨hsignature, hroot⟩ := Root.read?_eq_some_iff.mpr ⟨hf, behind, hb⟩
  have hdrop : file.toList.drop root.size = behind := by
    rw [hb, List.drop_left' root.length_written]
  have hnone : Directory.read? file root = none ↔
      StreamHeader.EndsEarly root.streamCount behind := by
    rw [Directory.read?, Option.map_eq_none_iff, StreamHeader.readFrom?_eq_none_iff, hdrop]
  refine ⟨fun hs rest hl hst => ?_, ?_, hnone,
    (read_eq_truncatedDirectory_iff hsignature hroot).trans hnone⟩
  · have hheaders : StreamHeader.readFrom? file root.streamCount root.size [] = some hs :=
      StreamHeader.readFrom?_eq_some_iff.mpr ⟨hs, rest, hl, hdrop ▸ hst, rfl⟩
    have hread : Directory.read? file root = some (Directory.ofHeaders hs) := by
      rw [Directory.read?, hheaders]
      rfl
    refine ⟨hheaders, _, hread, Directory.lists_ofHeaders hs,
      read_of_directory hsignature hroot hread, fun m hm => ?_⟩
    obtain ⟨pdb, h⟩ := opened_of_read hm
    obtain rfl : root = m.root := Option.some.inj (hroot.symm.trans h.root)
    exact Option.some.inj (h.directory.symm.trans hread)
  · cases hread : StreamHeader.readFrom? file root.streamCount root.size [] with
    | none => exact .inl (hdrop ▸ StreamHeader.readFrom?_eq_none_iff.mp hread)
    | some result =>
      obtain ⟨hs, rest, hl, hst, -⟩ := StreamHeader.readFrom?_eq_some_iff.mp hread
      exact .inr ⟨hs, rest, hl, hdrop ▸ hst⟩

/-- The version field has an odd number of bytes, among them those of both required
streams. Two of the headers are for the same name, one name and its zero byte are four
bytes, no padding has zeros, and that of the last header is missing. -/
def unevenRoot (streamCount : Nat) : Root :=
  ⟨1, 1, 0, (DebugStream.mk (List.replicate 20 7) 0 0 []).written ++
    (TablesHeader.mk 0 2 0 0 1 0 0 []).written 0 ++ [0], 0, streamCount⟩

def unevenEntries : List (StreamHeader × List UInt8) :=
  [(⟨⟨0, 1⟩, [0x23, 0x7E]⟩, [1]), (⟨⟨16, 32⟩, [0x23, 0x50, 0x64, 0x62]⟩, [2, 3, 4]),
    (⟨⟨1, 2⟩, [0x61, 0x62, 0x63]⟩, []),
    (⟨⟨48, 24⟩, [0x23, 0x2D]⟩, [5])]

def lastHeader : StreamHeader := ⟨⟨0xFFFFFFFF, 0⟩, [0xFF]⟩

def unevenHeaders : List StreamHeader := unevenEntries.map (·.1) ++ [lastHeader]

def unevenBytes : List UInt8 :=
  unevenEntries.flatMap (fun e => e.1.written e.2) ++ lastHeader.written []

def unevenFile (streamCount : Nat) : Block :=
  ((unevenRoot streamCount).written ++ unevenBytes).toArray

theorem fits_unevenRoot {n : Nat} (h : n < 2 ^ 16) : (unevenRoot n).Fits where
  majorVersion := show 1 < 2 ^ 16 by decide
  minorVersion := show 1 < 2 ^ 16 by decide
  reserved := show 0 < 2 ^ 32 by decide
  versionLength := show (unevenRoot 0).versionField.length < 2 ^ 32 by decide
  flags := show 0 < 2 ^ 16 by decide
  streamCount := h

theorem starts_unevenBytes : StreamHeader.Starts unevenHeaders unevenBytes [] := by
  have hpadded : lastHeader.IsPadding ([] ++ [0, 0]) := rfl
  have hlast : StreamHeader.Starts [lastHeader] (lastHeader.written []) [] :=
    .cut ⟨by decide, by decide, by decide⟩ hpadded
  have hnumbers : ∀ e ∈ unevenEntries, e.1.extent.offset < 2 ^ 32 ∧ e.1.extent.size < 2 ^ 32 ∧
      0 ∉ e.1.name := by decide
  refine StreamHeader.starts_of_entries (fun e he => ?_)
    (fun e he => StreamHeader.isPadding_iff.mpr ?_) hlast
  · obtain ⟨hoffset, hsize, hname⟩ := hnumbers e he
    exact ⟨hoffset, hsize, hname⟩
  · revert e
    decide

theorem unevenFile_directory :
    (unevenRoot 5).Fits ∧ StreamHeader.Starts unevenHeaders unevenBytes [] ∧
    (∃ m, read (unevenFile 5) = .ok m ∧ m.directory =
      [("#~", ⟨48, 24⟩), ("#Pdb", ⟨16, 32⟩), ("abc", ⟨1, 2⟩), ("\uFFFD", ⟨0xFFFFFFFF, 0⟩)]) ∧
    read (unevenFile 6) = .error .truncatedDirectory := by
  have h5 : (unevenRoot 5).Fits := fits_unevenRoot (by decide)
  have hopen : ((read (unevenFile 5)).toOption.any fun _ => true) = true := by decide +kernel
  obtain ⟨m, hm, -⟩ := exists_ok_of_any hopen
  obtain ⟨-, hheaders, -⟩ := directory_of_headers (unevenFile 5)
  obtain ⟨-, d, -, hlists, -, hopened⟩ :=
    (hheaders _ _ h5 rfl).1 unevenHeaders [] rfl starts_unevenBytes
  obtain ⟨-, hlonger, -⟩ := directory_of_headers (unevenFile 6)
  refine ⟨h5, starts_unevenBytes, ⟨m, hm, ?_⟩, ?_⟩
  · rw [hopened m hm, hlists.inserted]
    decide +kernel
  · rw [(hlonger _ _ (fits_unevenRoot (by decide)) rfl).2.2.2]
    exact ⟨unevenHeaders, [], by decide, starts_unevenBytes, by simp [StreamHeader.Unfinished]⟩

end Image

end DebugMetadata
