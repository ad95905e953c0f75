import DebugMetadata.Proofs.Bytes.Mask
import DebugMetadata.Proofs.Image.Container
import DebugMetadata.Proofs.Table.Written

/-!
# The tables stream

A tables stream is written from the rows of any of the debug tables, at the
widths that the format lays down, and read back from every file that hosts it
(`rows_of_written`). The widths are stated here a second time, from the row
counts alone, and the places of the columns too (`places`). Both are shown to be
those that a reader chooses.
-/

namespace DebugMetadata

/-! ## Widths -/

def DebugTable.widths (t : DebugTable) (width : Content → Nat) : List (Column × Nat) :=
  t.columns.map fun c => (c.1, width c.2)

theorem DebugTable.totalSize_widths_pos (t : DebugTable) {width : Content → Nat}
    (hw : ∀ c, 0 < width c) : 0 < Column.totalSize (t.widths width) := by
  obtain ⟨c, columns, hc⟩ : ∃ c columns, t.columns = c :: columns := by
    cases t <;> exact ⟨_, _, rfl⟩
  have hpos := hw c.2
  unfold widths
  rw [hc, List.map_cons, Column.totalSize]
  omega

def DebugTable.names (t : DebugTable) : List Column := t.columns.map (·.1)

theorem Sizes.map_fst_columns (s : Sizes) (t : DebugTable) : (s.columns t).map (·.1) = t.names := by
  unfold Sizes.columns DebugTable.names
  rw [List.map_map]; rfl

/-- Whether a column takes four bytes and not two. Tables and coded parents are
indexed by 16 bits as long as all rows can be told apart, a coded parent having
five of them taken. -/
def Content.isWide (heapSizes : Nat) (rowCount : Nat → Nat) : Content → Bool
  | .number16 => false
  | .number32 => true
  | .stringIndex => heapSizes &&& 0x01 != 0
  | .guidIndex => heapSizes &&& 0x02 != 0
  | .blobIndex => heapSizes &&& 0x04 != 0
  | .rowOf t => 65536 ≤ rowCount t.number
  | .parent => ∃ t ∈ Parent.tables, 2048 ≤ rowCount t.number

theorem testBit_eq_and (n i : Nat) : n.testBit i = (n &&& 2 ^ i != 0) := by
  rw [Nat.and_two_pow]
  cases n.testBit i with
  | false => simp
  | true => simp

theorem Sizes.width_eq_isWide (s : Sizes) (c : Content) :
    s.width c = if c.isWide s.heaps s.rows then 4 else 2 := by
  cases c with
  | number16 => rfl
  | number32 => rfl
  | stringIndex =>
    simp only [Sizes.width, narrowUnless, testBit_eq_and, Content.isWide, stringBit]; rfl
  | guidIndex => simp only [Sizes.width, narrowUnless, testBit_eq_and, Content.isWide, guidBit]; rfl
  | blobIndex => simp only [Sizes.width, narrowUnless, testBit_eq_and, Content.isWide, blobBit]; rfl
  | rowOf t => simp only [Sizes.width, narrowUnless, Content.isWide]; rfl
  | parent =>
    have h : (Parent.tables.any fun t => 0x10000 / Parent.tagBound ≤ s.rows t.number) =
        decide (∃ t ∈ Parent.tables, 2048 ≤ s.rows t.number) := by
      rw [Bool.eq_iff_iff, List.any_eq_true, decide_eq_true_eq]
      exact exists_congr fun t => and_congr_right fun _ => decide_eq_true_iff
    rw [Sizes.width, narrowUnless, h]; rfl

theorem TablesHeader.hasExtra_eq (heapSizes : Nat) :
    hasExtra heapSizes = (heapSizes &&& 0x40 != 0) :=
  testBit_eq_and heapSizes Sizes.extraBit

/-! ## Places in a row -/

/-- The columns of a row, each with its distance from the start of the row and its
width. -/
def DebugTable.places (width : Content → Nat) (t : DebugTable) : List (Column × Nat × Nat) :=
  let string := width .stringIndex
  let guid := width .guidIndex
  let blob := width .blobIndex
  let parent := width .parent
  let document := width (.rowOf .document)
  let method := width (.rowOf .methodDef)
  let scope := width (.rowOf .importScope)
  let locals := width (.rowOf .localVariable)
  let constants := width (.rowOf .localConstant)
  match t with
  | .document =>
    [(.name, 0, blob), (.hashAlgorithm, blob, guid), (.hash, blob + guid, blob),
      (.language, blob + guid + blob, guid)]
  | .methodDebugInformation => [(.document, 0, document), (.sequencePoints, document, blob)]
  | .localScope =>
    [(.method, 0, method), (.importScope, method, scope), (.variableList, method + scope, locals),
      (.constantList, method + scope + locals, constants),
      (.startOffset, method + scope + locals + constants, 4),
      (.length, method + scope + locals + constants + 4, 4)]
  | .localVariable => [(.attributes, 0, 2), (.index, 2, 2), (.name, 4, string)]
  | .localConstant => [(.name, 0, string), (.signature, string, blob)]
  | .importScope => [(.parent, 0, scope), (.imports, scope, blob)]
  | .stateMachineMethod => [(.moveNextMethod, 0, method), (.kickoffMethod, method, method)]
  | .customDebugInformation =>
    [(.parent, 0, parent), (.kind, parent, guid), (.value, parent + guid, blob)]

theorem Sizes.decode_columns (s : Sizes) (t : DebugTable) (bs : List UInt8) :
    Row.decode (s.columns t) bs = (t.places s.width).map fun (c, offset, width) =>
      (c, LittleEndian.value ((bs.drop offset).take width)) := by
  cases t <;> simp [columns, DebugTable.columns, DebugTable.places, Row.decode, Sizes.width,
    Nat.add_assoc]

theorem Sizes.rowSize_eq (s : Sizes) (t : DebugTable) :
    s.rowSize t = ((t.places s.width).map fun (_, _, width) => width).sum := by
  cases t <;> simp [rowSize, columns, DebugTable.columns, DebugTable.places, Column.totalSize,
    Sizes.width]

-- the flags ask for four bytes to index a blob
example : Row.decode (Sizes.columns ⟨0x04, fun _ => 0⟩ .customDebugInformation)
    [0x47, 0, 1, 0, 5, 0, 1, 0] = [(.parent, 0x47), (.kind, 1), (.value, 0x10005)] := by
  decide

/-! ## Contents of a stream -/

/-- What a tables stream holds: the fields of its header that the rows leave
open, and the rows of each table that is there. -/
structure TablesStream where
  reserved : Nat
  majorVersion : Nat
  minorVersion : Nat
  heapSizes : Nat
  reserved2 : Nat
  sorted : Nat
  extra : Nat
  rows? : DebugTable → Option (List (List Nat))

namespace TablesStream

section
variable (s : TablesStream)

def tables : List (DebugTable × List (List Nat)) :=
  DebugTable.all.filterMap fun t => (s.rows? t).map (t, ·)

def counts : RowCounts := s.tables.map fun p => (p.1.number, p.2.length)

def header : TablesHeader :=
  ⟨s.reserved, s.majorVersion, s.minorVersion, s.heapSizes, s.reserved2,
    Bits.mask (s.counts.map (·.1)), s.sorted, s.counts⟩

def written (width : Content → Nat) : List UInt8 :=
  s.header.written s.extra ++ s.tables.flatMap fun p => p.2.flatMap (Row.encode (p.1.widths width))

/-- The row count of any table: of its rows here, or else as it is referred to. -/
def rowCount (references : RowCounts) (number : Nat) : Nat :=
  match (DebugTable.ofNumber? number).bind s.rows? with
  | some rows => rows.length
  | none => (Keyed.find? number references).getD 0

def width (references : RowCounts) (c : Content) : Nat :=
  if c.isWide s.heapSizes (s.rowCount references) then 4 else 2

structure Fits (width : Content → Nat) : Prop where
  reserved : s.reserved < 2 ^ 32
  majorVersion : s.majorVersion < 2 ^ 8
  minorVersion : s.minorVersion < 2 ^ 8
  heapSizes : s.heapSizes < 2 ^ 8
  reserved2 : s.reserved2 < 2 ^ 8
  sorted : s.sorted < 2 ^ 64
  extra : s.extra < 2 ^ 32
  rowCounts : ∀ p ∈ s.tables, p.2.length < 2 ^ 32
  rows : ∀ p ∈ s.tables, ∀ values ∈ p.2, Row.Fits (p.1.widths width) values

/-! ## The tables that are there -/

theorem mem_tables {t : DebugTable} {rows : List (List Nat)} :
    (t, rows) ∈ s.tables ↔ s.rows? t = some rows := by
  have hall : t ∈ DebugTable.all := by cases t <;> decide
  unfold tables
  rw [List.mem_filterMap]
  constructor
  · rintro ⟨u, _, hu⟩
    obtain ⟨rows', hr, he⟩ := Option.map_eq_some_iff.mp hu
    cases he; exact hr
  · intro h
    exact ⟨t, hall, by rw [h]; rfl⟩

theorem map_fst_tables :
    s.tables.map (·.1) = DebugTable.all.filter fun t => (s.rows? t).isSome := by
  unfold tables
  induction DebugTable.all with
  | nil => rfl
  | cons t ts ih =>
    rw [List.filterMap_cons, List.filter_cons]
    cases s.rows? t with
    | none => exact ih
    | some rows => exact congrArg (t :: ·) ih

theorem nodup_tables : (s.tables.map (·.1)).Nodup := by
  rw [map_fst_tables]
  exact List.Nodup.filter _ (by decide)

theorem map_fst_counts : s.counts.map (·.1) = (s.tables.map (·.1)).map DebugTable.number := by
  unfold counts
  rw [List.map_map, List.map_map]; rfl

theorem ascending_counts : (s.counts.map (·.1)).Pairwise (· < ·) := by
  rw [map_fst_counts, map_fst_tables, List.pairwise_map]
  exact List.Pairwise.filter _ (by decide)

theorem number_lt_of_counts : ∀ n ∈ s.counts.map (·.1), n < 64 := by
  intro n hn
  rw [map_fst_counts] at hn
  obtain ⟨t, _, rfl⟩ := List.mem_map.mp hn
  cases t <;> decide

end

variable {s : TablesStream} {width : Content → Nat}

theorem Fits.header (hf : s.Fits width) : s.header.Fits where
  reserved := hf.reserved
  majorVersion := hf.majorVersion
  minorVersion := hf.minorVersion
  heapSizes := hf.heapSizes
  reserved2 := hf.reserved2
  valid := Bits.mask_lt s.number_lt_of_counts
  sorted := hf.sorted
  tables := Bits.positions_mask s.ascending_counts
  counts := by
    intro c hc
    obtain ⟨p, hp, rfl⟩ := List.mem_map.mp hc
    exact hf.rowCounts p hp

/-! ## Row counts -/

theorem find?_counts (s : TablesStream) (number : Nat) :
    Keyed.find? number s.counts = ((DebugTable.ofNumber? number).bind s.rows?).map (·.length) := by
  have hn : (s.counts.map (·.1)).Nodup := s.ascending_counts.imp fun h => Nat.ne_of_lt h
  cases ht : DebugTable.ofNumber? number with
  | none =>
    refine Keyed.find?_eq_none fun hm => ?_
    rw [map_fst_counts] at hm
    obtain ⟨t, _, rfl⟩ := List.mem_map.mp hm
    rw [DebugTable.ofNumber?_number] at ht; cases ht
  | some t =>
    have hnum := DebugTable.number_of_ofNumber? ht
    rw [Option.bind_some]
    cases hr : s.rows? t with
    | none =>
      refine Keyed.find?_eq_none fun hm => ?_
      rw [map_fst_counts, ← hnum] at hm
      obtain ⟨u, hu, he⟩ := List.mem_map.mp hm
      obtain ⟨⟨u', rows⟩, hp, rfl⟩ := List.mem_map.mp hu
      have hu' := DebugTable.ofNumber?_number u'
      rw [he, DebugTable.ofNumber?_number, Option.some.injEq] at hu'
      rw [mem_tables, ← hu', hr] at hp; cases hp
    | some rows =>
      refine Keyed.find?_of_mem hn (List.mem_map.mpr ⟨(t, rows), s.mem_tables.mpr hr, ?_⟩)
      rw [← hnum]

theorem countOf_eq (s : TablesStream) (debug : DebugStream) :
    Image.countOf debug s.header = s.rowCount debug.counts := by
  funext number
  unfold Image.countOf rowCount
  rw [show s.header.counts = s.counts from rfl, find?_counts]
  cases (DebugTable.ofNumber? number).bind s.rows? with
  | none => rfl
  | some rows => rfl

theorem widths_eq (s : TablesStream) (debug : DebugStream) (t : DebugTable) :
    t.widths (s.width debug.counts) = (Image.sizesOf debug s.header).columns t := by
  unfold DebugTable.widths Sizes.columns
  refine List.map_congr_left fun c _ => congrArg (Prod.mk c.1) ?_
  rw [Sizes.width_eq_isWide, Image.sizesOf, countOf_eq]; rfl

def bareFile (s : TablesStream) (references : RowCounts) : Block :=
  (Container.written ⟨1, 1, padded [0x50],
    [("#Pdb", (DebugStream.mk (List.replicate 20 7) 0 (Bits.mask (references.map (·.1))) references).written),
      ("#~", s.written (s.width references))]⟩).toArray

end TablesStream

/-! ## Places -/

namespace TablePlace

def placed (sizes : Sizes) : (offset : Nat) → List (DebugTable × List (List Nat)) → List TablePlace
  | _, [] => []
  | offset, (t, rows) :: tables =>
    ⟨t, offset, rows.length⟩ :: placed sizes (offset + rows.length * sizes.rowSize t) tables

theorem locate_eq (sizes : Sizes) (offset : Nat) (tables : List (DebugTable × List (List Nat))) :
    locate sizes offset (tables.map fun p => (p.1.number, p.2.length)) =
      .ok (placed sizes offset tables) := by
  induction tables generalizing offset with
  | nil => rfl
  | cons p tables ih =>
    obtain ⟨t, rows⟩ := p
    rw [List.map_cons, locate, DebugTable.ofNumber?_number]
    simp only
    rw [ih]; rfl

theorem find?_placed_none {sizes : Sizes} {t : DebugTable}
    {tables : List (DebugTable × List (List Nat))}
    (h : t ∉ tables.map (·.1)) (offset : Nat) :
      (placed sizes offset tables).find? (fun p => p.table == t) = none := by
  induction tables generalizing offset with
  | nil => rfl
  | cons p tables ih =>
    obtain ⟨u, rows⟩ := p
    rw [List.map_cons, List.mem_cons, not_or] at h
    rw [placed, List.find?_cons_of_neg (by simpa using Ne.symm h.1), ih h.2]

theorem find?_placed {sizes : Sizes} {stream : Block} {offset : Nat}
    {tables : List (DebugTable × List (List Nat))}
    (hs : stream.Holds offset (tables.flatMap fun p => p.2.flatMap (Row.encode (sizes.columns p.1))))
    (hf : ∀ p ∈ tables, ∀ values ∈ p.2, Row.Fits (sizes.columns p.1) values)
    (hn : (tables.map (·.1)).Nodup)
    {t : DebugTable} {rows : List (List Nat)} (hm : (t, rows) ∈ tables) :
    ∃ o, (placed sizes offset tables).find? (fun p => p.table == t) = some ⟨t, o, rows.length⟩ ∧
      stream.Holds o (rows.flatMap (Row.encode (sizes.columns t))) := by
  induction tables generalizing offset with
  | nil => cases hm
  | cons p tables ih =>
    obtain ⟨u, rows'⟩ := p
    have hl : (rows'.flatMap (Row.encode (sizes.columns u))).length =
        rows'.length * sizes.rowSize u :=
      length_flatMap_of_length fun _ hr =>
        Row.length_encode (hf (u, rows') (List.mem_cons_self ..) _ hr)
    rw [List.flatMap_cons, Block.holds_append, hl] at hs
    rw [List.map_cons, List.nodup_cons] at hn
    rw [placed]
    rcases List.mem_cons.mp hm with he | hm
    · cases he
      exact ⟨offset, List.find?_cons_of_pos (by simp), hs.1⟩
    · -- the search goes past a table only because no table comes twice
      have hne : u ≠ t := fun e => hn.1 (e ▸ List.mem_map.mpr ⟨_, hm, rfl⟩)
      rw [List.find?_cons_of_neg (by simpa using hne)]
      exact ih hs.2 (fun p hp => hf p (List.mem_cons_of_mem _ hp)) hn.2 hm

end TablePlace

/-! ## Opening a written stream -/

namespace Image

section
variable (root : Root) (directory : Directory) {stream? : String → Option Block}
    {pdb rowStream : Block}
  {debug : DebugStream} {s : TablesStream} {width : Content → Nat}
  (hp : stream? "#Pdb" = some pdb) (hr : stream? "#~" = some rowStream)
  (hpdb : pdb.Holds 0 debug.written)
  (hdebug : debug.Fits) (hrows : rowStream.Holds 0 (s.written width)) (hs : s.Fits width)
  (hw : ∀ p ∈ s.tables, p.1.widths width = (sizesOf debug s.header).columns p.1)
include hp hr hpdb hdebug hrows hs hw

theorem ofStreams_written : ∃ m, ofStreams root directory stream? = .ok m ∧ m.debug = debug ∧
    m.header = s.header ∧
    m.strings = (stream? "#Strings").getD #[] ∧ m.blobs = (stream? "#Blob").getD #[] ∧
    m.guids = (stream? "#GUID").getD #[] ∧
    ∀ t, (m.view t).columns.map (·.1) = t.names ∧ (m.view t).IsWritten ((s.rows? t).getD []) := by
  unfold TablesStream.written at hrows
  rw [Block.holds_append, TablesHeader.length_written, Nat.zero_add] at hrows
  obtain ⟨hheader, htables⟩ := hrows
  have hbody : (s.tables.flatMap fun p => p.2.flatMap (Row.encode (p.1.widths width))) =
      s.tables.flatMap fun p => p.2.flatMap (Row.encode ((sizesOf debug s.header).columns p.1)) :=
    List.flatMap_congr fun p hp => by rw [hw p hp]
  rw [hbody] at htables
  have hfits : ∀ p ∈ s.tables, ∀ values ∈ p.2,
      Row.Fits ((sizesOf debug s.header).columns p.1) values := by
    intro p hp values hv
    rw [← hw p hp]; exact hs.rows p hp values hv
  refine ⟨⟨root, directory, debug, s.header, TablePlace.placed (sizesOf debug s.header) s.header.size s.tables,
    rowStream, _, _, _⟩, ?_, rfl, rfl, rfl, rfl, rfl, fun t => ?_⟩
  · unfold ofStreams
    rw [hp, hr]
    simp only
    rw [DebugStream.read?_written hpdb hdebug,
      TablesHeader.read?_written hheader hs.header hs.extra]
    simp only
    rw [show s.header.counts = s.tables.map fun p => (p.1.number, p.2.length) from rfl,
      TablePlace.locate_eq]
    rfl
  · unfold view
    simp only
    cases ht : s.rows? t with
    | none =>
      have hnot : t ∉ s.tables.map (·.1) := by
        intro hm
        obtain ⟨⟨u, rows⟩, hp, rfl⟩ := List.mem_map.mp hm
        rw [s.mem_tables, ht] at hp; cases hp
      rw [TablePlace.find?_placed_none hnot]
      refine ⟨Sizes.map_fst_columns _ t, ?_, rfl, fun _ hv => by cases hv⟩
      exact Block.holds_iff.mpr ⟨Nat.zero_le _, rfl⟩
    | some rows =>
      have hm := s.mem_tables.mpr ht
      obtain ⟨o, ho, hat⟩ := TablePlace.find?_placed htables hfits s.nodup_tables hm
      rw [ho]
      exact ⟨Sizes.map_fst_columns _ t, hat, rfl, hfits _ hm⟩

end

/-- Opening the file finds a readable root and directory and these two required
streams. -/
def Hosts (file pdb rowStream : Block) : Prop :=
  isMetadata file = true ∧ ∃ root directory, Root.read? file = some root ∧
  Directory.read? file root = some directory ∧
    directory.stream? file "#Pdb" = some pdb ∧ directory.stream? file "#~" = some rowStream

/-- Every written file that has the two streams hosts them, with the zeros that
pad them. -/
theorem hosts_written {c : Container} (hc : c.Fits) {pdb rowStream : List UInt8}
    (hp : ("#Pdb", pdb) ∈ c.streams)
    (hr : ("#~", rowStream) ∈ c.streams) : ∃ pdb' rowStream',
      Hosts c.written.toArray pdb' rowStream' ∧
      pdb'.toList = pdb ++ padding pdb.length ∧
        rowStream'.toList = rowStream ++ padding rowStream.length := by
  have hfile : c.written.toArray.toList = c.written := rfl
  obtain ⟨hsig, hroot, hdir⟩ := Container.read_written hc hfile
  obtain ⟨pdb', hp, hpdb⟩ := Container.stream?_written hc hfile hp
  obtain ⟨rowStream', hr, hrows⟩ := Container.stream?_written hc hfile hr
  exact ⟨pdb', rowStream', ⟨hsig, _, _, hroot, hdir, hp, hr⟩, hpdb, hrows⟩

structure References (references : RowCounts) : Prop where
  ascending : (references.map (·.1)).Pairwise (· < ·)
  tables : ∀ c ∈ references, c.1 < 64
  counts : ∀ c ∈ references, c.2 < 2 ^ 32

/-- A file that hosts written streams opens, and every table lists exactly the
rows that were written, none if the table is not there. -/
theorem rows_of_written (file pdb rowStream : Block) (id : List UInt8) (entryPoint : Nat)
    (references : RowCounts)
    (s : TablesStream) (behind behind' : List UInt8) (hfile : Hosts file pdb rowStream)
    (hid : id.length = 20) (hentry : entryPoint < 2 ^ 32) (href : References references)
    (hs : s.Fits (s.width references))
    (hpdb : pdb.toList =
      (DebugStream.mk id entryPoint (Bits.mask (references.map (·.1))) references).written ++
        behind)
    (hrows : rowStream.toList = s.written (s.width references) ++ behind') :
    ∃ m, read file = .ok m ∧
      (∀ t rows, s.rows? t = some rows → (m.view t).rows = .ok (TableView.numbered t.names rows)) ∧
      ∀ t, s.rows? t = none → (m.view t).count = 0 ∧ (m.view t).rows = .ok [] := by
  obtain ⟨hsig, root, directory, hroot, hdir, hp, hr⟩ := hfile
  have hdebug : (DebugStream.mk id entryPoint (Bits.mask (references.map (·.1))) references).Fits :=
    { id := hid
      entryPoint := hentry
      referenced := Bits.mask_lt fun n hn => by
        obtain ⟨c, hc, rfl⟩ := List.mem_map.mp hn
        exact href.tables c hc
      tables := Bits.positions_mask href.ascending
      counts := href.counts }
  obtain ⟨m, hm, -, -, -, -, -, hview⟩ := ofStreams_written root directory hp hr
    (Block.holds_of_prefix hpdb) hdebug (Block.holds_of_prefix hrows) hs fun p _ =>
      s.widths_eq (.mk id entryPoint _ references) p.1
  refine ⟨m, ?_, fun t rows ht => ?_, fun t ht => ?_⟩
  · unfold read
    rw [if_pos hsig, hroot]
    simp only
    rw [hdir]; exact hm
  · obtain ⟨hc, hv⟩ := hview t
    rw [hv.rows_eq, hc, ht]; rfl
  · obtain ⟨_, hv⟩ := hview t
    rw [ht] at hv
    exact ⟨hv.count, hv.rows_eq⟩

/-! ## A stream with wide columns -/

/-- A stream with strings and blobs in large heaps, a word of extra data and a table without rows. -/
def wideStream : TablesStream :=
  ⟨0, 2, 0, 0x45, 1, 0, 0xFFFFFFFF, fun t =>
    match t with
    | .localScope => some [[69999, 0, 1, 1, 0, 300], [70000, 0, 2, 1, 4, 5]]
    | .localVariable => some []
    | .customDebugInformation => some [[0x80000, 1, 0x12345]]
    | _ => none⟩

/-- So many types and methods that their rows and coded parents need four bytes;
the count of scopes is not that of the stream. -/
def wideReferences : RowCounts := [(0x02, 3000), (0x06, 70000), (0x32, 9)]

def wideContainer : Container :=
  ⟨1, 1, padded [0x50],
    [("#Pdb", (DebugStream.mk (List.replicate 20 7) 0 (Bits.mask (wideReferences.map (·.1)))
    wideReferences).written), ("#~", wideStream.written (wideStream.width wideReferences))]⟩

theorem fits_wideContainer : wideContainer.Fits where
  root := ⟨by decide, by decide, by decide, by decide, by decide, by decide⟩
  extents := by decide +kernel
  names := by decide
  nodup := by decide

theorem rows_of_wideStream :
    wideStream.Fits (wideStream.width wideReferences) ∧ References wideReferences ∧
    ∃ m, read wideContainer.written.toArray = .ok m ∧
      (m.view .customDebugInformation).rows =
        .ok [(1, [(.parent, 0x80000), (.kind, 1), (.value, 0x12345)])] ∧
      (m.view .document).rows = .ok [] := by
  have hs : wideStream.Fits (wideStream.width wideReferences) :=
    { reserved := by decide
      majorVersion := by decide
      minorVersion := by decide
      heapSizes := by decide
      reserved2 := by decide
      sorted := by decide
      extra := by decide
      rowCounts := by decide
      rows := by decide }
  have href : References wideReferences := ⟨by decide, by decide, by decide⟩
  obtain ⟨pdb, rowStream, hfile, hpdb, hrows⟩ := hosts_written fits_wideContainer
    (List.mem_cons_self ..) (List.mem_cons_of_mem _ (List.mem_cons_self ..))
  obtain ⟨m, hm, hpresent, habsent⟩ :=
    rows_of_written wideContainer.written.toArray pdb rowStream (List.replicate 20 7) 0
    wideReferences wideStream _ _ hfile (by decide) (by decide) href hs hpdb hrows
  exact ⟨hs, href, m, hm, hpresent .customDebugInformation _ rfl, (habsent .document rfl).2⟩

end Image

end DebugMetadata
