import DebugMetadata.Image.Basic
import DebugMetadata.Proofs.Bytes.Held
import DebugMetadata.Proofs.Bytes.Mask
import DebugMetadata.Proofs.Result
import DebugMetadata.Proofs.Keyed

/-!
# What opening a file has read

Every part of an opened file is what one reader found in the file or in one of its
streams (`opened_of_read`). The row count of a table stands in the counts of a
stream at the rank of the table in the mask before them (`find?_of_testBit`).
-/

namespace DebugMetadata

/-! ## Row counts -/

namespace RowCounts

variable {stream : Block} {position : Nat} {tables : List Nat} {counts : RowCounts}

theorem map_fst_of_read? (h : read? stream position tables = some counts) :
    counts.map (·.1) = tables := by
  induction tables generalizing position counts with
  | nil => cases h; rfl
  | cons t tables ih =>
    simp only [read?, Option.bind_eq_bind, Option.bind_eq_some_iff] at h
    obtain ⟨count, -, rest, hrest, h⟩ := h
    cases h
    rw [List.map_cons, ih hrest]

theorem number?_of_read? (h : read? stream position tables = some counts) {i : Nat} {c : Nat × Nat}
    (hi : counts[i]? = some c) : stream.number? (position + 4 * i) 4 = some c.2 := by
  induction tables generalizing position counts i with
  | nil => cases h; cases hi
  | cons t tables ih =>
    simp only [read?, Option.bind_eq_bind, Option.bind_eq_some_iff] at h
    obtain ⟨count, hcount, rest, hrest, h⟩ := h
    cases h
    cases i with
    | zero => cases hi; exact hcount
    | succ i =>
      have hnext := ih hrest hi
      rwa [show position + 4 + 4 * i = position + 4 * (i + 1) by omega] at hnext

section
variable {mask n : Nat} (h : read? stream position (Bits.positions mask) = some counts)
include h

theorem find?_of_testBit (hn : mask.testBit n = true) :
    ∃ c, Keyed.find? n counts = some c ∧
      stream.number? (position + 4 * Bits.rank mask n) 4 = some c := by
  have hkeys := map_fst_of_read? h
  have hnodup : (counts.map (·.1)).Nodup := hkeys ▸ (Bits.positions_pairwise mask).imp Nat.ne_of_lt
  have hrank := Bits.getElem?_positions hn
  rw [← hkeys, List.getElem?_map] at hrank
  obtain ⟨e, he, rfl⟩ := Option.map_eq_some_iff.mp hrank
  exact ⟨e.2, Keyed.find?_of_mem hnodup (List.mem_of_getElem? he), number?_of_read? h he⟩

theorem find?_of_not_testBit (hn : mask.testBit n = false) : Keyed.find? n counts = none := by
  apply Keyed.find?_eq_none
  rw [map_fst_of_read? h, Bits.mem_positions, hn]
  exact Bool.false_ne_true

end

end RowCounts

/-! ## Required streams -/

theorem DebugStream.fields_of_read? {stream : Block} {d : DebugStream} (h : read? stream = some d) :
    stream.number? 24 8 = some d.referenced ∧
      RowCounts.read? stream countsOffset (Bits.positions d.referenced) = some d.counts := by
  simp only [read?, Option.bind_eq_bind, Option.bind_eq_some_iff] at h
  obtain ⟨id, -, entryPoint, -, referenced, hreferenced, counts, hcounts, h⟩ := h
  cases h
  exact ⟨hreferenced, hcounts⟩

theorem TablesHeader.fields_of_read? {stream : Block} {header : TablesHeader}
    (h : read? stream = some header) :
    stream.number? 6 1 = some header.heapSizes ∧ stream.number? 8 8 = some header.valid ∧
      RowCounts.read? stream countsOffset (Bits.positions header.valid) = some header.counts := by
  simp only [read?, Option.bind_eq_bind, Option.bind_eq_some_iff] at h
  obtain ⟨reserved, -, majorVersion, -, minorVersion, -, heapSizes, hheaps, reserved2, -, valid,
    hvalid, sorted, -, counts, hcounts, h⟩ := h
  split at h
  · obtain ⟨extra, -, h⟩ := Option.bind_eq_some_iff.mp h
    cases h
    exact ⟨hheaps, hvalid, hcounts⟩
  · cases h
    exact ⟨hheaps, hvalid, hcounts⟩

/-! ## Files -/

theorem TablePlace.eq_unsupportedTable_of_locate {sizes : Sizes} {offset : Nat}
    {counts : RowCounts} {e : Error}
    (h : locate sizes offset counts = .error e) : ∃ number, e = .unsupportedTable number := by
  induction counts generalizing offset with
  | nil => cases h
  | cons c counts ih =>
    rw [locate] at h
    split at h
    · cases h
      exact ⟨_, rfl⟩
    · exact ih (map_eq_error_iff.mp h)

namespace Image

structure Opened (file : Block) (m : Image) (pdb : Block) : Prop where
  signature : isMetadata file = true
  root : Root.read? file = some m.root
  directory : Directory.read? file m.root = some m.directory
  debugStream : m.directory.stream? file "#Pdb" = some pdb
  rowStream : m.directory.stream? file "#~" = some m.rowStream
  debug : DebugStream.read? pdb = some m.debug
  header : TablesHeader.read? m.rowStream = some m.header
  places : TablePlace.locate m.sizes m.header.size m.header.counts = .ok m.places
  strings : m.strings = (m.directory.stream? file "#Strings").getD #[]
  blobs : m.blobs = (m.directory.stream? file "#Blob").getD #[]
  guids : m.guids = (m.directory.stream? file "#GUID").getD #[]

theorem opened_of_read {file : Block} {m : Image} (h : read file = .ok m) :
    ∃ pdb, Opened file m pdb := by
  unfold read at h
  split at h
  · next hsig =>
    split at h
    · cases h
    next root hroot =>
    split at h
    · cases h
    next directory hdir =>
    unfold ofStreams at h
    split at h
    · cases h
    · cases h
    next pdb rowStream hpdb hrows =>
    split at h
    · next debug header hdebug hheader =>
      obtain ⟨places, hplaces, rfl⟩ := map_eq_ok_iff.mp h
      exact ⟨pdb, hsig, hroot, hdir, hpdb, hrows, hdebug, hheader, hplaces, rfl, rfl, rfl⟩
    · cases h
  · cases h

end Image

end DebugMetadata
