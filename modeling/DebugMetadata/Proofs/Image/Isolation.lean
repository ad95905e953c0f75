import DebugMetadata.Proofs.Draft.Records
import DebugMetadata.Proofs.Image.Heap
import DebugMetadata.Proofs.Image.Opened
import DebugMetadata.Proofs.Image.Question
import DebugMetadata.Proofs.Result
import DebugMetadata.Proofs.Table.Listed

/-!
# Streams that keep to themselves

Opening a file and every answer depend on the root, on the names and sizes in the
directory and on the bytes of five streams. Where the streams are, what is between
them and what else the file has does not matter (`answers_of_streams_only`).
-/

namespace DebugMetadata

/-! ## Contents by name -/

namespace Directory

def sizes (d : Directory) : List (String × Nat) := d.map fun s => (s.1, s.2.size)

/-- The directory of a file of which it and the root can be read. -/
def ofFile? (file : Block) : Option Directory := (Root.read? file).bind (read? file)

/-- The bytes that the file has for a stream. -/
def content? (file : Block) (name : String) : Option Block :=
  (ofFile? file).bind fun d => d.stream? file name

def known : List String := ["#Pdb", "#~", "#Strings", "#Blob", "#GUID"]

theorem find?_sizes (d : Directory) (name : String) :
    Keyed.find? name d.sizes = (Keyed.find? name d).map (·.size) := by
  induction d with
  | nil => rfl
  | cons s d ih =>
    obtain ⟨n, e⟩ := s
    unfold sizes at *
    rw [List.map_cons, Keyed.find?, Keyed.find?, ih]
    split
    · rfl
    · rfl

end Directory

/-- Two files with the same root and with directories that differ in offsets at
most, of which the known streams have the same bytes. -/
structure Alike (a b : Block) : Prop where
  signature : a.slice 0 4 = b.slice 0 4
  root : Root.read? a = Root.read? b
  directory : (Directory.ofFile? a).map Directory.sizes = (Directory.ofFile? b).map Directory.sizes
  contents : ∀ name ∈ Directory.known, Directory.content? a name = Directory.content? b name

namespace Image

/-! ## Opening -/

theorem isMetadata_eq (file : Block) :
    isMetadata file = ((file.slice 0 4).toList == signature) := by
  unfold isMetadata Block.read?
  by_cases h : 0 + 4 ≤ file.size
  · rw [if_pos h]
    exact Option.some_beq_some
  · have hne : (file.slice 0 4).toList ≠ signature := by
      intro he
      have hl := congrArg List.length he
      rw [Block.toList_slice] at hl
      simp only [List.length_take, List.length_drop, Array.length_toList, signature,
        List.length_cons, List.length_nil] at hl
      omega
    rw [if_neg h, beq_eq_false_iff_ne.mpr hne]; rfl

theorem ofStreams_congr {s s' : String → Option Block}
    (h : ∀ name ∈ Directory.known, s name = s' name) (root : Root)
    (d d' : Directory) :
    ofStreams root d' s' = (ofStreams root d s).map fun m => { m with directory := d' } := by
  simp only [Directory.known, List.forall_mem_cons, List.not_mem_nil, false_implies, implies_true,
    and_true] at h
  obtain ⟨hpdb, hrows, hstrings, hblobs, hguids⟩ := h
  unfold ofStreams
  simp only [← hpdb, ← hrows, ← hstrings, ← hblobs, ← hguids]
  split
  · rfl
  · rfl
  · split
    · cases TablePlace.locate _ _ _ with
      | error e => rfl
      | ok places => rfl
    · rfl

structure Opens (file : Block) (m : Image) : Prop where
  directory : Directory.ofFile? file = some m.directory
  rowStream : Directory.content? file "#~" = some m.rowStream
  strings : m.strings = (Directory.content? file "#Strings").getD #[]
  blobs : m.blobs = (Directory.content? file "#Blob").getD #[]
  guids : m.guids = (Directory.content? file "#GUID").getD #[]

theorem opens_of_read {file : Block} {m : Image} (h : read file = .ok m) : Opens file m := by
  obtain ⟨pdb, ho⟩ := opened_of_read h
  have hfile : Directory.ofFile? file = some m.directory := by
    unfold Directory.ofFile?
    rw [ho.root, Option.bind_some, ho.directory]
  have hcontent : ∀ name, Directory.content? file name = m.directory.stream? file name := by
    intro name
    unfold Directory.content?
    rw [hfile, Option.bind_some]
  refine ⟨hfile, ?_, ?_, ?_, ?_⟩
  · rw [hcontent, ho.rowStream]
  · rw [hcontent, ho.strings]
  · rw [hcontent, ho.blobs]
  · rw [hcontent, ho.guids]

theorem read_of_alike {a b : Block} (h : Alike a b) :
    ∃ d, read b = (read a).map fun m => { m with directory := d } := by
  obtain ⟨hsignature, hroot, hdirectory, hcontents⟩ := h
  have hs : isMetadata b = isMetadata a := by rw [isMetadata_eq, isMetadata_eq, hsignature]
  unfold Directory.content? Directory.ofFile? at *
  unfold read
  rw [hs, ← hsignature]
  rw [← hroot] at hdirectory hcontents ⊢
  by_cases hm : isMetadata a = true
  · rw [if_pos hm, if_pos hm]
    cases hr : Root.read? a with
    | none => exact ⟨[], rfl⟩
    | some root =>
      rw [hr] at hdirectory hcontents
      simp only [Option.bind_some] at hdirectory hcontents ⊢
      cases hd : Directory.read? a root with
      | none =>
        rw [hd, Option.map_none, eq_comm, Option.map_eq_none_iff] at hdirectory
        rw [hdirectory]
        exact ⟨[], rfl⟩
      | some d =>
        rw [hd, Option.map_some, eq_comm] at hdirectory
        obtain ⟨d', hd', _⟩ := Option.map_eq_some_iff.mp hdirectory
        rw [hd, hd'] at hcontents
        rw [hd']
        exact ⟨d', ofStreams_congr hcontents root d d'⟩
  · rw [if_neg hm, if_neg hm]
    exact ⟨[], rfl⟩

/-! ## Answers -/

theorem ask_of_sizes {m : Image} {d : Directory} (h : d.sizes = m.directory.sizes) {α : Type}
    (q : Question α) : ({ m with directory := d } : Image).ask q = m.ask q := by
  have hthere : ∀ name, ({ m with directory := d } : Image).hasStream name = m.hasStream name := by
    intro name
    have hfind := congrArg (Keyed.find? name) h
    rw [Directory.find?_sizes, Directory.find?_sizes] at hfind
    have hsome := congrArg Option.isSome hfind
    rwa [Option.isSome_map, Option.isSome_map] at hsome
  cases q with
  | guid i => simp only [ask, guid, hthere]
  | blob i => simp only [ask, blob, hthere]
  | string i => simp only [ask, string, hthere]
  | row t i => rfl
  | rows t limit => rfl
  | attached entity limit => rfl
  | records entity limit => rfl
  | payload entity kind => rfl
  | scopes method limit => rfl
  | scopeVariables scope limit => rfl
  | methodVariables method limit => rfl
  | localVariable h => rfl

end Image

/-! ## Ends of streams -/

namespace Heap

variable {heap : Block} {i : Nat}

theorem guid_inside {g : Guid} (h : guid heap i = .ok (some g)) :
    1 ≤ i ∧ i * Guid.size ≤ heap.size := by
  have hi : i ≠ 0 := by
    rintro rfl
    cases h
  obtain ⟨-, -, hle, -⟩ := (guid_eq_ok_iff hi).mp h
  unfold Guid.size
  omega

theorem blob_inside {payload : List UInt8} (h : blob heap i = .ok payload) :
    i = 0 ∨ i + payload.length < heap.size := by
  by_cases hi : i = 0
  · exact .inl hi
  · obtain ⟨w, -, hp⟩ := (blob_eq_ok_iff hi).mp h
    have hw : 0 < w.size := by cases w <;> decide
    have hsize : heap.toList.length = heap.size := Array.length_toList
    have hl := hp.length_le
    rw [List.length_append, Compressed.length_write, List.length_drop, hsize] at hl
    exact .inr (by omega)

theorem string_inside {s : String} (h : string heap i = .ok s) : 0 ∈ heap.toList.drop i :=
  (string_eq_ok_iff.mp h).2.subset (by simp)

theorem index_eq_ok {there : Bool} {position j : Int}
    (h : index there position j = .ok i) : j = i := by
  unfold index at h
  split at h
  · split at h
    · cases h
    · cases h
      omega
  · cases h

end Heap

namespace Image

/-- What an answer is read from ends before its stream does, and the stream before
the size that the directory gives for it. -/
structure Inside (file : Block) (m : Image) : Prop where
  size : ∀ name e s, Keyed.find? name m.directory = some e → Directory.content? file name = some s →
    s.size ≤ e.size
  guid : ∀ i g, m.ask (.guid i) = .ok (some g) →
    ∃ s, Directory.content? file "#GUID" = some s ∧ i * Guid.size ≤ s.size
  blob : ∀ i payload, m.ask (.blob i) = .ok payload →
    i = 0 ∨ ∃ s, Directory.content? file "#Blob" = some s ∧ i + payload.length < s.size
  string : ∀ i text, m.ask (.string i) = .ok text →
    ∃ s, Directory.content? file "#Strings" = some s ∧ 0 ∈ s.toList.drop i.toNat
  row : ∀ t i r, m.ask (.row t i) = .ok r →
    ∃ s, Directory.content? file "#~" = some s ∧
      (m.view t).position i.toNat + (m.view t).rowSize ≤ s.size

theorem exists_of_getD {o : Option Block} {p : Block → Prop} (h : p (o.getD #[]))
    (hempty : ¬ p #[]) : ∃ s, o = some s ∧ p s := by
  cases o with
  | none => exact absurd h hempty
  | some s => exact ⟨s, rfl, h⟩

theorem inside_of_opens {file : Block} {m : Image} (h : Opens file m) : Inside file m where
  size := by
    intro name e s he hs
    unfold Directory.content? Directory.stream? at hs
    rw [h.directory, Option.bind_some, he, Option.map_some] at hs
    cases hs
    rw [← Array.length_toList, Block.toList_slice]
    exact List.length_take_le _ _
  guid := by
    intro i g hg
    obtain ⟨j, hj, hg⟩ := bind_eq_ok_iff.mp hg
    have hin := Heap.guid_inside hg
    rw [h.guids] at hin
    -- an empty heap holds no GUID, so the heap is a stream of the file
    obtain ⟨s, hs, _, hle⟩ := exists_of_getD (p := fun s => 1 ≤ j ∧ j * Guid.size ≤ s.size) hin (by
      simp only [Array.size_empty, Guid.size]
      omega)
    rw [Heap.index_eq_ok hj]
    exact ⟨s, hs, by omega⟩
  blob := by
    intro i payload hp
    obtain ⟨j, hj, hp⟩ := bind_eq_ok_iff.mp hp
    have hin := Heap.blob_inside hp
    rw [h.blobs] at hin
    rw [Heap.index_eq_ok hj]
    refine hin.imp (fun hz => by omega) fun hlt => ?_
    obtain ⟨s, hs, hlt⟩ := exists_of_getD (p := fun s => j + payload.length < s.size) hlt (by simp)
    exact ⟨s, hs, by omega⟩
  string := by
    intro i text ht
    obtain ⟨j, hj, ht⟩ := bind_eq_ok_iff.mp ht
    have hin := Heap.string_inside ht
    rw [h.strings] at hin
    rw [Heap.index_eq_ok hj]
    exact exists_of_getD (p := fun s => 0 ∈ s.toList.drop j) hin (by simp)
  row := by
    intro t i r hr
    obtain ⟨k, rfl, _, hle, _⟩ := TableView.row_eq_ok_iff.mp hr
    rw [stream_view] at hle
    exact ⟨_, h.rowStream, hle⟩

/-- Files with the same root and with the same names and sizes in the directory, of
which the known streams have the same bytes, open to the same or fail alike, and
then give the same answers and errors. No answer is read from behind the end of
its stream, even where the file goes on. -/
theorem answers_of_streams_only (a b : Block) (h : Alike a b) :
    (∀ e, read a = .error e ↔ read b = .error e) ∧
    (∀ m, read a = .ok m → ∃ d, d.sizes = m.directory.sizes ∧ read b = .ok { m with directory := d } ∧
      (∀ t, ({ m with directory := d } : Image).view t = m.view t) ∧
      ∀ (α : Type) (q : Question α), ({ m with directory := d } : Image).ask q = m.ask q) ∧
    ∀ m, read a = .ok m → Inside a m := by
  obtain ⟨d, hb⟩ := read_of_alike h
  refine ⟨?_, ?_, fun m hm => inside_of_opens (opens_of_read hm)⟩
  · intro e
    rw [hb, map_eq_error_iff]
  · intro m hm
    rw [hm] at hb
    have ha := (opens_of_read hm).directory
    have hd := (opens_of_read hb).directory
    have hsizes := h.directory
    rw [ha, hd] at hsizes
    have hsizes : d.sizes = m.directory.sizes := (Option.some.inj hsizes).symm
    exact ⟨d, hsizes, hb, fun t => rfl, fun α q => ask_of_sizes hsizes q⟩

/-- The sample with other bytes between the directory and the streams, and behind
them. -/
def movedSample : Block :=
  let c := Draft.sample.container
  let headers := Container.headersFrom (c.root.size + c.directorySize + 3) c.streams
  let directory := headers.flatMap fun h => h.written (padding (h.name.length + 1))
  let streams := c.streams.flatMap fun s => padded s.2
  (c.root.written ++ directory ++ [0xFF, 0, 0xFF] ++ streams ++ [7, 7]).toArray

def sampleDirectory (shift : Nat) : Directory :=
  [("#Pdb", ⟨112 + shift, 40⟩), ("#~", ⟨152 + shift, 144⟩), ("#Strings", ⟨296 + shift, 8⟩),
    ("#Blob", ⟨304 + shift, 12⟩),
    ("#GUID", ⟨316 + shift, 80⟩)]

theorem ofFile?_sample :
    Directory.ofFile? Draft.sample.file = some (sampleDirectory 0) := by decide +kernel

theorem ofFile?_movedSample :
    Directory.ofFile? movedSample = some (sampleDirectory 3) := by decide +kernel

theorem alike_movedSample : Alike Draft.sample.file movedSample where
  signature := by decide +kernel
  root := by decide +kernel
  directory := by
    rw [ofFile?_sample, ofFile?_movedSample]
    rfl
  contents := by
    have hlist : ∀ name ∈ Directory.known,
        ((Keyed.find? name (sampleDirectory 0)).map fun e => (Draft.sample.file.toList.drop e.offset).take e.size) =
          (Keyed.find? name (sampleDirectory 3)).map fun e =>
            (movedSample.toList.drop e.offset).take e.size := by
      decide +kernel
    intro name hname
    unfold Directory.content? Directory.stream?
    rw [ofFile?_sample, ofFile?_movedSample, Option.bind_some, Option.bind_some]
    apply Option.map_injective fun _ _ he => Array.toList_inj.mp he
    rw [Option.map_map, Option.map_map]
    simpa only [Function.comp_def, Block.toList_slice] using hlist name hname

theorem movedSample_answers : Alike Draft.sample.file movedSample ∧
    Directory.ofFile? Draft.sample.file ≠ Directory.ofFile? movedSample ∧
    ∃ m n, read Draft.sample.file = .ok m ∧ Inside Draft.sample.file m ∧ read movedSample = .ok n ∧
      n.ask (.payload Handle.ofModule .sourceLink) = .ok (some [1, 2]) := by
  obtain ⟨m, hm, ho⟩ := Draft.read_file Draft.wellFormed_sample
  have hask : m.ask (.payload Handle.ofModule .sourceLink) = .ok (some [1, 2]) :=
    (Draft.payload?_eq ho Draft.wellFormed_sample.payloads Handle.ofModule .sourceLink).trans rfl
  have hne : Directory.ofFile? Draft.sample.file ≠ Directory.ofFile? movedSample := by
    rw [ofFile?_sample, ofFile?_movedSample]
    decide
  obtain ⟨_, hopens, hinside⟩ :=
    answers_of_streams_only Draft.sample.file movedSample alike_movedSample
  obtain ⟨d, _, hn, _, hanswers⟩ := hopens m hm
  exact ⟨alike_movedSample, hne, m, _, hm, hinside m hm, hn, (hanswers _ _).trans hask⟩

end Image

end DebugMetadata
