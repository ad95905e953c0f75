import DebugMetadata.Proofs.Image.Headers
import DebugMetadata.Proofs.Keyed
import DebugMetadata.Proofs.Text.Utf8

/-!
# Written files

A file of named streams: the root, a header for each stream, and the streams
one after the other, names and streams being padded to four bytes with zeros.
Opening such a file finds every stream under its name (`stream?_written`).
-/

namespace DebugMetadata

/-- The zeros behind so many bytes up to a multiple of four. -/
def padding (size : Nat) : List UInt8 := List.replicate (Alignment.padded size - size) 0

def padded (bs : List UInt8) : List UInt8 := bs ++ padding bs.length

theorem add_length_padding (size : Nat) : size + (padding size).length = Alignment.padded size := by
  have := Alignment.le_padded size
  unfold padding
  rw [List.length_replicate]; omega

structure Container where
  majorVersion : Nat
  minorVersion : Nat
  versionField : List UInt8
  streams : List (String × List UInt8)

namespace Container

variable (c : Container)

def root : Root := ⟨c.majorVersion, c.minorVersion, 0, c.versionField, 0, c.streams.length⟩

def headersFrom (offset : Nat) : List (String × List UInt8) → List StreamHeader
  | [] => []
  | (name, data) :: streams =>
    ⟨⟨offset, (padded data).length⟩, Utf8.encode name⟩ ::
      headersFrom (offset + (padded data).length) streams

def directorySize : Nat :=
  (c.streams.map fun s => 8 + Alignment.padded ((Utf8.encode s.1).length + 1)).sum

def headers : List StreamHeader := headersFrom (c.root.size + c.directorySize) c.streams

def entries : List (StreamHeader × List UInt8) :=
  c.headers.map fun h => (h, padding (h.name.length + 1))

def written : List UInt8 :=
  c.root.written ++ c.entries.flatMap (fun e => e.1.written e.2) ++
    c.streams.flatMap fun s => padded s.2

/-- The streams go by the names that they are written under, and all numbers
fit their bytes. -/
structure Fits : Prop where
  root : c.root.Fits
  extents : ∀ h ∈ c.headers, h.extent.offset < 2 ^ 32 ∧ h.extent.size < 2 ^ 32
  names : ∀ s ∈ c.streams,
    String.ofList (StreamHeader.unified s.1.toList) = s.1 ∧ '\x00' ∉ s.1.toList
  nodup : (c.streams.map (·.1)).Nodup

/-! ## Directory -/

theorem length_headersFrom (offset : Nat) (streams : List (String × List UInt8)) :
    (headersFrom offset streams).length = streams.length := by
  induction streams generalizing offset with
  | nil => rfl
  | cons s streams ih => rw [headersFrom, List.length_cons, ih, List.length_cons]

theorem size_headersFrom (offset : Nat) (streams : List (String × List UInt8)) :
    ((headersFrom offset streams).map StreamHeader.size).sum =
      (streams.map fun s => 8 + Alignment.padded ((Utf8.encode s.1).length + 1)).sum := by
  induction streams generalizing offset with
  | nil => rfl
  | cons s streams ih =>
    rw [headersFrom, List.map_cons, List.sum_cons, ih, List.map_cons, List.sum_cons]; rfl

theorem map_name_headersFrom (offset : Nat) (streams : List (String × List UInt8)) :
    (headersFrom offset streams).map (·.name) = streams.map fun s => Utf8.encode s.1 := by
  induction streams generalizing offset with
  | nil => rfl
  | cons s streams ih => rw [headersFrom, List.map_cons, ih, List.map_cons]

theorem isPadding_entries : ∀ e ∈ c.entries, e.1.IsPadding e.2 := by
  intro e he
  obtain ⟨h, _, rfl⟩ := List.mem_map.mp he
  exact add_length_padding _

theorem length_entries : (c.entries.flatMap fun e => e.1.written e.2).length = c.directorySize := by
  have hl : ∀ e ∈ c.entries, (e.1.written e.2).length = e.1.size :=
    fun e he => StreamHeader.length_written (c.isPadding_entries e he)
  rw [List.length_flatMap, List.map_congr_left hl, directorySize,
    ← size_headersFrom (c.root.size + c.directorySize), entries, List.map_map]
  rfl

theorem map_fst_entries : c.entries.map (·.1) = c.headers := by
  unfold entries
  rw [List.map_map]; exact List.map_id _

theorem Fits.headers {c : Container} (hc : c.Fits) : ∀ h ∈ c.headers, h.Fits := by
  intro h hh
  have hname : h.name ∈ c.headers.map (·.name) := List.mem_map.mpr ⟨h, hh, rfl⟩
  rw [Container.headers, map_name_headersFrom] at hname
  obtain ⟨s, hs, he⟩ := List.mem_map.mp hname
  refine ⟨(hc.extents h hh).1, (hc.extents h hh).2, ?_⟩
  rw [← he]
  exact Utf8.zero_not_mem_encode (hc.names s hs).2

theorem map_fst_directory (hc : c.Fits) :
    (c.headers.map fun h => (h.streamName, h.extent)).map (·.1) = c.streams.map (·.1) := by
  have hname :
    (c.headers.map (·.name)).map
      (fun n => String.ofList (StreamHeader.unified (Utf8.decodeLossy n).toList)) =
      c.streams.map (·.1) := by
    rw [headers, map_name_headersFrom, List.map_map]
    refine List.map_congr_left fun s hs => ?_
    rw [Function.comp_apply, Utf8.decodeLossy_encode]; exact (hc.names s hs).1
  rw [← hname, List.map_map, List.map_map]; rfl

/-! ## Streams -/

theorem holds_headersFrom {file : Block} {offset : Nat} {streams : List (String × List UInt8)}
    (hs : file.Holds offset (streams.flatMap fun s => padded s.2)) {name : String}
    {data : List UInt8}
    (hm : (name, data) ∈ streams) :
    ∃ h ∈ headersFrom offset streams, h.name = Utf8.encode name ∧
    h.extent.size = (padded data).length ∧
      file.Holds h.extent.offset (padded data) := by
  induction streams generalizing offset with
  | nil => cases hm
  | cons s streams ih =>
    rw [List.flatMap_cons, Block.holds_append] at hs
    rw [headersFrom]
    rcases List.mem_cons.mp hm with rfl | hm
    · exact ⟨_, List.mem_cons_self .., rfl, rfl, hs.1⟩
    · obtain ⟨h, hh, hrest⟩ := ih hs.2 hm
      exact ⟨h, List.mem_cons_of_mem _ hh, hrest⟩

section
variable {c} {file : Block} (hc : c.Fits) (hf : file.toList = c.written)
include hc hf

theorem read_written :
    isMetadata file = true ∧ Root.read? file = some c.root ∧
      Directory.read? file c.root = some (c.headers.map fun h => (h.streamName, h.extent)) := by
  have hbytes : file.toList = c.root.written ++ ((c.entries.flatMap fun e => e.1.written e.2) ++
      c.streams.flatMap fun s => padded s.2) := by
    rw [hf, written, List.append_assoc]
  obtain ⟨hsignature, hroot⟩ := Root.read?_eq_some_iff.mpr ⟨hc.root, _, hbytes⟩
  refine ⟨hsignature, hroot, ?_⟩
  have hentries : ∀ e ∈ c.entries, e.1.Fits := by
    intro e he
    obtain ⟨h, hh, rfl⟩ := List.mem_map.mp he
    exact hc.headers h hh
  have hstarts := StreamHeader.starts_of_entries hentries c.isPadding_entries
    (.nil (c.streams.flatMap fun s => padded s.2))
  rw [map_fst_entries, List.append_nil] at hstarts
  have hdrop : file.toList.drop c.root.size = (c.entries.flatMap fun e => e.1.written e.2) ++
      c.streams.flatMap fun s => padded s.2 := by
    rw [hbytes, List.drop_left' c.root.length_written]
  have hn : c.headers.length = c.root.streamCount := length_headersFrom ..
  have hread : StreamHeader.readFrom? file c.root.streamCount c.root.size [] = some c.headers :=
    StreamHeader.readFrom?_eq_some_iff.mpr ⟨_, _, hn, hdrop ▸ hstarts, rfl⟩
  have hnodup : ((c.headers.map fun h => (h.streamName, h.extent)).map (·.1)).Nodup := by
    rw [map_fst_directory c hc]; exact hc.nodup
  rw [Directory.read?, hread]
  exact congrArg some (Keyed.effective_of_nodup hnodup)

/-- Every stream is found under its name, with the zeros that pad it. -/
theorem stream?_written {name : String} {data : List UInt8} (hm : (name, data) ∈ c.streams) :
    ∃ s, Directory.stream? (c.headers.map fun h => (h.streamName, h.extent)) file name = some s ∧
      s.toList = padded data := by
  have hw := Block.holds_of_prefix (hf.trans (List.append_nil _).symm)
  rw [written, Block.holds_append, List.length_append, Root.length_written, length_entries,
    Nat.zero_add] at hw
  obtain ⟨h, hh, hname, hsize, hat⟩ := holds_headersFrom hw.2 hm
  have hstream : h.streamName = name := by
    unfold StreamHeader.streamName
    rw [hname, Utf8.decodeLossy_encode]; exact (hc.names (name, data) hm).1
  have hfind : Keyed.find? name (c.headers.map fun h => (h.streamName, h.extent)) = some h.extent :=
    Keyed.find?_of_mem (by rw [map_fst_directory c hc]; exact hc.nodup)
      (List.mem_map.mpr ⟨h, hh, by rw [hstream]⟩)
  refine ⟨file.slice h.extent.offset h.extent.size, ?_, ?_⟩
  · unfold Directory.stream?
    rw [hfind]; rfl
  · rw [hsize]; exact hat.slice

end

end Container

end DebugMetadata
