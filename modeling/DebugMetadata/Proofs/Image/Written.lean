import DebugMetadata.Image.Basic
import DebugMetadata.Proofs.Bytes.Held

/-!
# Written headers

The bytes of the root, of the directory and of what comes before the rows in
the two required streams. Each part is read back from any block that holds
its bytes, whatever stands behind them.
-/

namespace DebugMetadata

open LittleEndian (bytes)

/-! ## Root -/

namespace Root

def written (r : Root) : List UInt8 :=
  signature ++ bytes 2 r.majorVersion ++ bytes 2 r.minorVersion ++ bytes 4 r.reserved ++
    bytes 4 r.versionField.length ++ r.versionField ++ bytes 2 r.flags ++ bytes 2 r.streamCount

structure Fits (r : Root) : Prop where
  majorVersion : r.majorVersion < 2 ^ 16
  minorVersion : r.minorVersion < 2 ^ 16
  reserved : r.reserved < 2 ^ 32
  versionLength : r.versionField.length < 2 ^ 32
  flags : r.flags < 2 ^ 16
  streamCount : r.streamCount < 2 ^ 16

theorem length_written (r : Root) : r.written.length = r.size := by
  simp only [written, size, versionOffset, signature, List.length_append, LittleEndian.length_bytes,
    List.length_cons, List.length_nil]

variable {file : Block} {r : Root}

theorem isMetadata_written (h : file.Holds 0 r.written) : isMetadata file = true := by
  simp only [written, Block.holds_append] at h
  obtain ⟨⟨⟨⟨⟨⟨⟨hs, _⟩, _⟩, _⟩, _⟩, _⟩, _⟩, _⟩ := h
  have hr : file.read? 0 4 = some signature := hs.read? rfl
  unfold isMetadata
  rw [hr, beq_self_eq_true]

theorem read?_written (h : file.Holds 0 r.written) (hf : r.Fits) : read? file = some r := by
  simp only [written, Block.holds_append, signature, List.length_append, LittleEndian.length_bytes,
    List.length_cons, List.length_nil, Nat.zero_add, Nat.reduceAdd] at h
  obtain ⟨⟨⟨⟨⟨⟨⟨_, h1⟩, h2⟩, h3⟩, h4⟩, h5⟩, h6⟩, h7⟩ := h
  unfold read?
  rw [h1.number? hf.majorVersion, h2.number? hf.minorVersion, h3.number? hf.reserved,
    h4.number? hf.versionLength]
  simp only [Option.bind_eq_bind, Option.bind_some, versionOffset]
  rw [h5.read? rfl, Option.bind_some, h6.number? hf.flags, Option.bind_some,
    h7.number? hf.streamCount, Option.bind_some]

end Root

/-! ## Directory -/

namespace StreamHeader

def written (h : StreamHeader) (padding : List UInt8) : List UInt8 :=
  bytes 4 h.extent.offset ++ bytes 4 h.extent.size ++ (h.name ++ [0]) ++ padding

structure Fits (h : StreamHeader) : Prop where
  offset : h.extent.offset < 2 ^ 32
  size : h.extent.size < 2 ^ 32
  name : 0 ∉ h.name

def IsPadding (h : StreamHeader) (padding : List UInt8) : Prop :=
  h.name.length + 1 + padding.length = Alignment.padded (h.name.length + 1)

variable {file : Block} {position : Nat} {h : StreamHeader}

theorem isPadding_iff {padding : List UInt8} :
    h.IsPadding padding ↔ 4 ∣ h.name.length + 1 + padding.length ∧ padding.length < 4 := by
  unfold IsPadding Alignment.padded
  omega

theorem length_written_eq (padding : List UInt8) :
    (h.written padding).length = 8 + (h.name.length + 1 + padding.length) := by
  simp only [written, List.length_append, LittleEndian.length_bytes, List.length_cons,
    List.length_nil]
  omega

theorem length_written {padding : List UInt8} (hp : h.IsPadding padding) :
    (h.written padding).length = h.size := by
  rw [length_written_eq, hp, size]

theorem read?_written {padding : List UInt8} (hw : file.Holds position (h.written padding))
    (hf : h.Fits) : read? file position = some h := by
  obtain ⟨hw, _⟩ := Block.holds_append.mp hw
  obtain ⟨hw, h3⟩ := Block.holds_append.mp hw
  obtain ⟨h1, h2⟩ := Block.holds_append.mp hw
  rw [List.length_append, LittleEndian.length_bytes, LittleEndian.length_bytes] at h3
  rw [LittleEndian.length_bytes] at h2
  unfold read?
  rw [h1.number? hf.offset, h2.number? hf.size]
  simp only [Option.bind_eq_bind, Option.bind_some]
  rw [h3.terminated? hf.name, Option.bind_some]

end StreamHeader

/-! ## Row counts -/

namespace RowCounts

def written (counts : RowCounts) : List UInt8 := counts.flatMap fun c => bytes 4 c.2

theorem length_written (counts : RowCounts) : counts.written.length = 4 * counts.length := by
  unfold written
  rw [length_flatMap_of_length fun c _ => LittleEndian.length_bytes 4 c.2, Nat.mul_comm]

theorem read?_written {stream : Block} {position : Nat} {counts : RowCounts}
    (h : stream.Holds position counts.written) (hf : ∀ c ∈ counts, c.2 < 2 ^ 32) :
    read? stream position (counts.map (·.1)) = some counts := by
  induction counts generalizing position with
  | nil => rfl
  | cons c counts ih =>
    unfold written at *
    rw [List.flatMap_cons, Block.holds_append, LittleEndian.length_bytes] at h
    rw [List.map_cons, read?, h.1.number? (hf c (List.mem_cons_self ..))]
    simp only [Option.bind_eq_bind, Option.bind_some]
    rw [ih h.2 fun c' hc => hf c' (List.mem_cons_of_mem _ hc), Option.bind_some]

end RowCounts

/-! ## Stream headers of `#Pdb` and `#~` -/

namespace DebugStream

def written (d : DebugStream) : List UInt8 :=
  d.id ++ bytes 4 d.entryPoint ++ bytes 8 d.referenced ++ d.counts.written

/-- The fields fit, and there is one count for each table of the mask. -/
structure Fits (d : DebugStream) : Prop where
  id : d.id.length = 20
  entryPoint : d.entryPoint < 2 ^ 32
  referenced : d.referenced < 2 ^ 64
  tables : Bits.positions d.referenced = d.counts.map (·.1)
  counts : ∀ c ∈ d.counts, c.2 < 2 ^ 32

theorem read?_written {stream : Block} {d : DebugStream} (h : stream.Holds 0 d.written)
    (hf : d.Fits) : read? stream = some d := by
  simp only [written, Block.holds_append, List.length_append, LittleEndian.length_bytes, hf.id,
    Nat.zero_add, Nat.reduceAdd] at h
  obtain ⟨⟨⟨h1, h2⟩, h3⟩, h4⟩ := h
  unfold read?
  rw [h1.read? hf.id, h2.number? hf.entryPoint, h3.number? hf.referenced]
  simp only [Option.bind_eq_bind, Option.bind_some, countsOffset, hf.tables]
  rw [RowCounts.read?_written h4 hf.counts, Option.bind_some]

end DebugStream

namespace TablesHeader

/-- The bytes of a header. The word of extra data is there if the byte of heap
flags says so. -/
def written (h : TablesHeader) (extra : Nat) : List UInt8 :=
  bytes 4 h.reserved ++ bytes 1 h.majorVersion ++ bytes 1 h.minorVersion ++ bytes 1 h.heapSizes ++
    bytes 1 h.reserved2 ++ bytes 8 h.valid ++ bytes 8 h.sorted ++ h.counts.written ++
    if hasExtra h.heapSizes then bytes 4 extra else []

structure Fits (h : TablesHeader) : Prop where
  reserved : h.reserved < 2 ^ 32
  majorVersion : h.majorVersion < 2 ^ 8
  minorVersion : h.minorVersion < 2 ^ 8
  heapSizes : h.heapSizes < 2 ^ 8
  reserved2 : h.reserved2 < 2 ^ 8
  valid : h.valid < 2 ^ 64
  sorted : h.sorted < 2 ^ 64
  tables : Bits.positions h.valid = h.counts.map (·.1)
  counts : ∀ c ∈ h.counts, c.2 < 2 ^ 32

theorem length_written (h : TablesHeader) (extra : Nat) : (h.written extra).length = h.size := by
  unfold written size countsOffset
  simp only [List.length_append, LittleEndian.length_bytes, RowCounts.length_written]
  split
  · rw [LittleEndian.length_bytes]
  · rw [List.length_nil]

theorem read?_written {stream : Block} {h : TablesHeader} {extra : Nat}
    (hw : stream.Holds 0 (h.written extra))
    (hf : h.Fits) (he : extra < 2 ^ 32) : read? stream = some h := by
  simp only [written, Block.holds_append, List.length_append, LittleEndian.length_bytes,
    RowCounts.length_written, Nat.zero_add, Nat.reduceAdd] at hw
  obtain ⟨⟨⟨⟨⟨⟨⟨⟨h1, h2⟩, h3⟩, h4⟩, h5⟩, h6⟩, h7⟩, h8⟩, h9⟩ := hw
  unfold read?
  rw [h1.number? hf.reserved, h2.number? hf.majorVersion, h3.number? hf.minorVersion,
    h4.number? hf.heapSizes, h5.number? hf.reserved2, h6.number? hf.valid, h7.number? hf.sorted]
  simp only [Option.bind_eq_bind, Option.bind_some, countsOffset, hf.tables]
  rw [RowCounts.read?_written h8 hf.counts, Option.bind_some]
  by_cases hx : hasExtra h.heapSizes = true
  · rw [if_pos hx] at h9 ⊢
    have hs : h.size - 4 = 24 + 4 * h.counts.length := by
      unfold size countsOffset; rw [if_pos hx]; omega
    rw [hs, h9.number? he, Option.bind_some]
  · rw [if_neg hx]

end TablesHeader

end DebugMetadata
