import DebugMetadata.Proofs.Draft.Basic
import DebugMetadata.Proofs.Image.Heap

/-!
# Opening a written draft

The file of a well-formed draft opens, and the image has the heaps and the rows
that the draft writes. The widths that a draft is written at are those that the
format lays down for its row counts.
-/

namespace DebugMetadata

namespace Draft

/-! ## Offsets -/

section
variable {α : Type} {size : α → Nat}

theorem length_offsets (start : Nat) (as : List α) :
    (offsets size start as).length = as.length := by
  induction as generalizing start with
  | nil => rfl
  | cons a as ih => rw [offsets, List.length_cons, ih, List.length_cons]

theorem getElem?_offsets {start i : Nat} {as : List α} {a : α} (h : as[i]? = some a) :
    (offsets size start as)[i]? = some (start + ((as.take i).map size).sum) := by
  induction as generalizing start i with
  | nil => cases h
  | cons a' as ih =>
    cases i with
    | zero => rfl
    | succ i =>
      rw [List.getElem?_cons_succ] at h
      rw [offsets, List.getElem?_cons_succ, ih h, List.take_succ_cons, List.map_cons, List.sum_cons,
        Nat.add_assoc]

theorem getElem?_zip_offsets (size : α → Nat) (start : Nat) {i : Nat} {as : List α} {a : α}
    (h : as[i]? = some a) :
    (as.zip (offsets size start as))[i]? = some (a, start + ((as.take i).map size).sum) :=
  List.getElem?_zip_eq_some.mpr ⟨h, getElem?_offsets h⟩

theorem map_fst_zip_offsets (size : α → Nat) (start : Nat) (as : List α) :
    (as.zip (offsets size start as)).map (·.1) = as :=
  List.map_fst_zip (Nat.le_of_eq (length_offsets start as).symm)

theorem le_of_mem_offsets {start o : Nat} {as : List α} (h : o ∈ offsets size start as) :
    start ≤ o ∧ o ≤ start + (as.map size).sum := by
  induction as generalizing start with
  | nil => cases h
  | cons a as ih =>
    rw [offsets] at h
    rw [List.map_cons, List.sum_cons]
    rcases List.mem_cons.mp h with rfl | h
    · omega
    · have := ih h
      omega

theorem holds_of_mem_zip_offsets {b : Block} {f : α → List UInt8} {start : Nat} {as : List α}
    (hs : b.Holds start (as.flatMap f)) {a : α} {o : Nat}
    (h : (a, o) ∈ as.zip (offsets (fun a => (f a).length) start as)) :
    b.Holds o (f a) := by
  induction as generalizing start with
  | nil => cases h
  | cons a' as ih =>
    rw [List.flatMap_cons, Block.holds_append] at hs
    rw [offsets, List.zip_cons_cons] at h
    rcases List.mem_cons.mp h with he | h
    · cases he; exact hs.1
    · exact ih hs.2 h

end

variable (d : Draft)

/-! ## Row counts and widths -/

theorem length_scopeRows : d.scopeRows.length = d.scopes.length := by
  unfold scopeRows
  rw [List.length_map, List.length_zip, length_offsets, Nat.min_self]

theorem length_variableRows : d.variableRows.length = d.locals.length := by
  unfold variableRows
  rw [List.length_map, List.length_zip, length_offsets, Nat.min_self]

theorem length_indexed : d.indexed.length = d.entries.length := by
  unfold indexed
  rw [List.length_zip, List.length_zip, length_offsets, List.length_range', Nat.min_self,
    Nat.min_self]

theorem length_recordRows : d.recordRows.length = d.entries.length := by
  unfold recordRows sorted
  rw [List.length_map, List.length_insertionSort, length_indexed]

theorem getD_of_length {α β : Type} {as : List α} {rows : List β} (h : rows.length = as.length) :
    (if as.isEmpty then none else some rows).getD [] = rows := by
  cases as with
  | nil => exact (List.eq_nil_of_length_eq_zero h).symm
  | cons a as => rfl

theorem getD_localScope : (d.rows? .localScope).getD [] = d.scopeRows :=
  getD_of_length d.length_scopeRows

theorem getD_localVariable : (d.rows? .localVariable).getD [] = d.variableRows :=
  getD_of_length d.length_variableRows

theorem getD_customDebugInformation : (d.rows? .customDebugInformation).getD [] = d.recordRows :=
  getD_of_length d.length_recordRows

theorem rowCount_debugTable (t : DebugTable) :
    d.tablesStream.rowCount d.debugStream.counts t.number = ((d.rows? t).getD []).length := by
  have hn : Keyed.find? t.number d.debugStream.counts = none := by cases t <;> rfl
  unfold TablesStream.rowCount
  rw [DebugTable.ofNumber?_number, hn, Option.bind_some]
  cases hr : d.rows? t with
  | none => rw [show d.tablesStream.rows? t = none from hr]; rfl
  | some rows => rw [show d.tablesStream.rows? t = some rows from hr]; rfl

def rowCount : Table → Nat
  | .moduleDef => 1
  | .methodDef => d.methods
  | .localScope => d.scopes.length
  | .localVariable => d.locals.length
  | .customDebugInformation => d.entries.length
  | _ => 0

theorem rowCount_eq (t : Table) :
    d.tablesStream.rowCount d.debugStream.counts t.number = d.rowCount t := by
  cases t with
  | localScope =>
    exact (d.rowCount_debugTable .localScope).trans
      (by rw [getD_localScope]; exact d.length_scopeRows)
  | localVariable =>
    exact (d.rowCount_debugTable .localVariable).trans
      (by rw [getD_localVariable]; exact d.length_variableRows)
  | customDebugInformation =>
    refine (d.rowCount_debugTable .customDebugInformation).trans ?_
    rw [getD_customDebugInformation]; exact d.length_recordRows
  | _ => rfl

theorem width_rowOf {t : Table} (h : t = .methodDef ∨ t ≠ .methodDef ∧ d.rowCount t < 65536) :
    d.width (.rowOf t) = d.tablesStream.width d.debugStream.counts (.rowOf t) := by
  simp only [width, TablesStream.width, Content.isWide, rowCount_eq, decide_eq_true_eq]
  rcases h with rfl | ⟨hne, hlt⟩
  · by_cases hm : 65536 ≤ d.methods
    · rw [if_pos ⟨rfl, hm⟩, if_pos (show 65536 ≤ d.rowCount .methodDef from hm)]
    · rw [if_neg fun h => hm h.2, if_neg (show ¬ 65536 ≤ d.rowCount .methodDef from hm)]
  · rw [if_neg fun h => hne h.1, if_neg (by omega)]

def parentRows : Nat := max (max d.methods 1) (max d.scopes.length d.locals.length)

theorem rowCount_le_parentRows {t : Table} (h : t ∈ Parent.tables) :
    d.rowCount t ≤ d.parentRows := by
  unfold parentRows
  cases t with
  | customDebugInformation => exact absurd h (by decide)
  | moduleDef => exact Nat.le_trans (Nat.le_max_right ..) (Nat.le_max_left ..)
  | methodDef => exact Nat.le_trans (Nat.le_max_left ..) (Nat.le_max_left ..)
  | localScope => exact Nat.le_trans (Nat.le_max_left ..) (Nat.le_max_right ..)
  | localVariable => exact Nat.le_trans (Nat.le_max_right ..) (Nat.le_max_right ..)
  | _ => exact Nat.zero_le _

theorem exists_parentRows : ∃ t ∈ Parent.tables, d.parentRows = d.rowCount t := by
  -- one of the four tables that parents are in has the most rows
  unfold parentRows
  rcases Nat.le_total (max d.methods 1) (max d.scopes.length d.locals.length) with h | h
  · rw [Nat.max_eq_right h]
    rcases Nat.le_total d.scopes.length d.locals.length with h | h
    · exact ⟨.localVariable, by decide, Nat.max_eq_right h⟩
    · exact ⟨.localScope, by decide, Nat.max_eq_left h⟩
  · rw [Nat.max_eq_left h]
    rcases Nat.le_total d.methods 1 with h | h
    · exact ⟨.moduleDef, by decide, Nat.max_eq_right h⟩
    · exact ⟨.methodDef, by decide, Nat.max_eq_left h⟩

theorem width_parent : d.width .parent = d.tablesStream.width d.debugStream.counts .parent := by
  have hiff : (∃ t ∈ Parent.tables, 2048 ≤ d.rowCount t) ↔ 2048 ≤ d.parentRows := by
    constructor
    · rintro ⟨t, ht, hle⟩
      exact Nat.le_trans hle (d.rowCount_le_parentRows ht)
    · intro hle
      obtain ⟨t, ht, he⟩ := d.exists_parentRows
      exact ⟨t, ht, he ▸ hle⟩
  simp only [width, TablesStream.width, Content.isWide, rowCount_eq, decide_eq_true_eq, hiff]
  rfl

theorem widths_eq (hl : d.locals.length ≤ 65534) {t : DebugTable} {rows : List (List Nat)}
    (h : d.rows? t = some rows) :
    t.widths d.width = t.widths (d.tablesStream.width d.debugStream.counts) := by
  refine List.map_congr_left fun c hc => congrArg (Prod.mk c.1) ?_
  cases t with
  | localScope =>
    simp only [DebugTable.columns, List.mem_cons, List.not_mem_nil, or_false] at hc
    rcases hc with rfl | rfl | rfl | rfl | rfl | rfl
    · exact d.width_rowOf (.inl rfl)
    · exact d.width_rowOf (.inr ⟨by decide, show 0 < 65536 by decide⟩)
    · exact d.width_rowOf (.inr ⟨by decide, show d.locals.length < 65536 by omega⟩)
    · exact d.width_rowOf (.inr ⟨by decide, show 0 < 65536 by decide⟩)
    · rfl
    · rfl
  | localVariable =>
    simp only [DebugTable.columns, List.mem_cons, List.not_mem_nil, or_false] at hc
    rcases hc with rfl | rfl | rfl
    · rfl
    · rfl
    · rfl
  | customDebugInformation =>
    simp only [DebugTable.columns, List.mem_cons, List.not_mem_nil, or_false] at hc
    rcases hc with rfl | rfl | rfl
    · exact d.width_parent
    · rfl
    · rfl
  | _ => cases h

/-! ## Everything fits -/

theorem two_le_width (c : Content) : 2 ≤ d.width c := by
  cases c <;> simp only [width] <;> (try split) <;> omega

theorem lt_pow_width {n : Nat} (h : n < 65536) (c : Content) : n < 256 ^ d.width c :=
  Nat.lt_of_lt_of_le (show n < 256 ^ 2 from h) (Nat.pow_le_pow_right (by decide) (d.two_le_width c))

theorem rowSize_pos (t : DebugTable) : 0 < Column.totalSize (t.widths d.width) := by
  apply t.totalSize_widths_pos
  intro c
  have hw := d.two_le_width c
  omega

theorem sum_names : (d.scopes.map (·.names.length)).sum = d.locals.length := by
  unfold locals
  rw [List.length_flatMap]
  exact congrArg List.sum (List.map_congr_left fun s _ => (List.length_zipIdx ..).symm)

variable {d} (hd : d.WellFormed)
include hd

theorem method_lt {n : Nat} (h : n ≤ d.methods) : n < 256 ^ d.width (.rowOf .methodDef) := by
  have := hd.methods
  simp only [width, true_and]
  split
  · omega
  · omega

theorem fits_scopeRows :
    ∀ values ∈ d.scopeRows, Row.Fits (DebugTable.localScope.widths d.width) values := by
  intro values hv
  obtain ⟨⟨s, first⟩, hm, rfl⟩ := List.mem_map.mp hv
  obtain ⟨hs, hfirst⟩ := List.of_mem_zip hm
  have hle := (le_of_mem_offsets hfirst).2
  rw [sum_names] at hle
  have hl := hd.locals
  have small : ∀ n c, n ≤ 65535 → n < 256 ^ d.width c :=
    fun n c h => d.lt_pow_width (Nat.lt_succ_of_le h) c
  exact .cons (method_lt hd (hd.scopes s hs).2) (.cons (small 0 (.rowOf .importScope) (by decide))
    (.cons (small first (.rowOf .localVariable) (by omega)) (.cons (small 1 (.rowOf .localConstant) (by decide))
      (.cons (small 0 .number32 (by decide)) (.cons (small 0x100 .number32 (by decide)) .nil)))))

theorem fits_variableRows :
    ∀ values ∈ d.variableRows, Row.Fits (DebugTable.localVariable.widths d.width) values := by
  intro values hv
  obtain ⟨⟨v, name⟩, hm, rfl⟩ := List.mem_map.mp hv
  obtain ⟨hv, hname⟩ := List.of_mem_zip hm
  obtain ⟨s, hs, hz⟩ := List.mem_flatMap.mp hv
  have hslot : v.2 < s.names.length := (List.mem_zipIdx' hz).1
  have hle : s.names.length ≤ d.locals.length := by
    rw [← sum_names]; exact List.le_sum_of_mem (List.mem_map.mpr ⟨s, hs, rfl⟩)
  have hindex : v.2 < 65536 := by have := hd.locals; omega
  exact .cons (d.lt_pow_width (show 0 < 65536 by decide) .number16)
    (.cons (d.lt_pow_width hindex .number16)
    (.cons (hd.stringIndices name hname) .nil))

omit hd in
theorem of_mem_indexed {e : Entry} {kind value : Nat} (h : (e, kind, value) ∈ d.indexed) :
    e ∈ d.entries ∧ 1 ≤ kind ∧ kind ≤ d.entries.length ∧
      value ∈ offsets (fun e => (blob e.payload).length) 1 d.entries := by
  obtain ⟨he, hz⟩ := List.of_mem_zip h
  obtain ⟨hk, hv⟩ := List.of_mem_zip hz
  rw [List.mem_range'_1] at hk
  exact ⟨he, hk.1, by omega, hv⟩

theorem fits_recordRows :
    ∀ values ∈ d.recordRows,
      Row.Fits (DebugTable.customDebugInformation.widths d.width) values := by
  intro values hv
  obtain ⟨⟨e, kind, value⟩, hm, rfl⟩ := List.mem_map.mp hv
  obtain ⟨he, _, hk, hv⟩ := of_mem_indexed ((List.perm_insertionSort _ _).mem_iff.mp hm)
  exact .cons (hd.parents e he)
    (.cons (Nat.lt_of_le_of_lt hk hd.guidIndices) (.cons (hd.blobIndices value hv) .nil))

theorem fits_rows {t : DebugTable} {rows : List (List Nat)} (h : d.rows? t = some rows) :
    ∀ values ∈ rows, Row.Fits (t.widths d.width) values := by
  have of : ∀ {α : Type} {as : List α} {rows' : List (List Nat)},
      (if as.isEmpty then none else some rows') = some rows → rows' = rows := by
    intro α as rows' h
    split at h
    · cases h
    · exact Option.some.inj h
  cases t with
  | localScope => rw [← of h]; exact fits_scopeRows hd
  | localVariable => rw [← of h]; exact fits_variableRows hd
  | customDebugInformation => rw [← of h]; exact fits_recordRows hd
  | _ => cases h

theorem fits_debugStream : d.debugStream.Fits where
  id := List.length_replicate
  entryPoint := show 0 < 2 ^ 32 by decide
  referenced := show Bits.mask [Table.moduleDef.number, Table.methodDef.number] < 2 ^ 64 by decide
  tables := Bits.positions_mask
    (by decide : [Table.moduleDef.number, Table.methodDef.number].Pairwise (· < ·))
  counts := by
    have := hd.methods
    intro c hc
    rcases List.mem_cons.mp hc with rfl | hc
    · show 1 < 2 ^ 32
      decide
    · rw [List.mem_singleton.mp hc]
      exact Nat.lt_of_lt_of_le this (by decide)

theorem length_rows_lt {p : DebugTable × List (List Nat)} (hp : p ∈ d.tablesStream.tables) :
    p.2.length < 2 ^ 32 := by
  -- every row takes some bytes, so there are fewer rows than the sizes of streams can tell
  have hrows : ∀ values ∈ p.2, Row.Fits (p.1.widths d.width) values :=
    fits_rows hd (d.tablesStream.mem_tables.mp hp)
  have hlen := length_flatMap_of_length fun values hv => Row.length_encode (hrows values hv)
  have htable : p.2.length ≤ (p.2.flatMap (Row.encode (p.1.widths d.width))).length := by
    rw [hlen]; exact Nat.le_mul_of_pos_right _ (d.rowSize_pos p.1)
  have hstream : (p.2.flatMap (Row.encode (p.1.widths d.width))).length ≤
      (d.tablesStream.written d.width).length := by
    unfold TablesStream.written
    rw [List.length_append, List.length_flatMap (l := d.tablesStream.tables)]
    exact Nat.le_add_left_of_le (List.le_sum_of_mem (List.mem_map.mpr ⟨p, hp, rfl⟩))
  have hpadded :
      (d.tablesStream.written d.width).length ≤
        (padded (d.tablesStream.written d.width)).length := by
    unfold padded
    rw [List.length_append]; exact Nat.le_add_right _ _
  have hextent : (padded (d.tablesStream.written d.width)).length < 2 ^ 32 :=
    (hd.extents _ (List.mem_cons_of_mem _ (List.mem_cons_self ..))).2
  omega

theorem fits_tablesStream : d.tablesStream.Fits d.width where
  reserved := show 0 < 2 ^ 32 by decide
  majorVersion := show 2 < 2 ^ 8 by decide
  minorVersion := show 0 < 2 ^ 8 by decide
  heapSizes := Nat.lt_trans hd.heapSizes (by decide)
  reserved2 := show 1 < 2 ^ 8 by decide
  sorted := show 0 < 2 ^ 64 by decide
  extra := show 0 < 2 ^ 32 by decide
  rowCounts := fun _ hp => length_rows_lt hd hp
  rows := fun _ hp => fits_rows hd (d.tablesStream.mem_tables.mp hp)

omit hd in
theorem streamNames {s : String × List UInt8} (hs : s ∈ d.container.streams) :
    String.ofList (StreamHeader.unified s.1.toList) = s.1 ∧ '\x00' ∉ s.1.toList := by
  have hm : s.1 ∈ ["#Pdb", "#~", "#Strings", "#Blob", "#GUID"] := List.mem_map.mpr ⟨s, hs, rfl⟩
  revert hm
  generalize s.1 = name
  intro hm
  simp only [List.mem_cons, List.not_mem_nil, or_false] at hm
  rcases hm with rfl | rfl | rfl | rfl | rfl
  · decide
  · decide
  · decide
  · decide
  · decide

theorem fits_container : d.container.Fits where
  root := ⟨show 1 < 2 ^ 16 by decide, show 1 < 2 ^ 16 by decide, show 0 < 2 ^ 32 by decide,
    show (padded (Utf8.encode "PDB v1.0" ++ [0])).length < 2 ^ 32 by decide,
    show 0 < 2 ^ 16 by decide,
    show 5 < 2 ^ 16 by decide⟩
  extents := hd.extents
  names := fun _ hs => streamNames hs
  nodup := show ["#Pdb", "#~", "#Strings", "#Blob", "#GUID"].Nodup by decide

/-! ## The image -/

structure IsOpened (d : Draft) (m : Image) : Prop where
  strings : m.strings.toList = padded d.strings
  blobs : m.blobs.toList = padded d.blobs
  guids : m.guids.toList = padded d.guids
  columns : ∀ t, (m.view t).columns.map (·.1) = t.names
  rows : ∀ t, (m.view t).IsWritten ((d.rows? t).getD [])

theorem read_file : ∃ m, Image.read d.file = .ok m ∧ d.IsOpened m := by
  have hfits := fits_container hd
  have hfile : d.file.toList = d.container.written := rfl
  have stream : ∀ {name data}, (name, data) ∈ d.container.streams →
      ∃ s, Directory.stream? (d.container.headers.map fun h => (h.streamName, h.extent))
          d.file name = some s ∧
        s.toList = padded data := fun hm => Container.stream?_written hfits hfile hm
  obtain ⟨hsig, hroot, hdir⟩ := Container.read_written hfits hfile
  obtain ⟨pdb, hp, hpdb⟩ :=
    stream (by simp [container] : ("#Pdb", d.debugStream.written) ∈ d.container.streams)
  obtain ⟨rowStream, hr, hrows⟩ :=
    stream (by simp [container] : ("#~", d.tablesStream.written d.width) ∈ d.container.streams)
  obtain ⟨strings, hs, hstrings⟩ :=
    stream (by simp [container] : ("#Strings", d.strings) ∈ d.container.streams)
  obtain ⟨blobs, hb, hblobs⟩ :=
    stream (by simp [container] : ("#Blob", d.blobs) ∈ d.container.streams)
  obtain ⟨guids, hg, hguids⟩ :=
    stream (by simp [container] : ("#GUID", d.guids) ∈ d.container.streams)
  have hw : ∀ p ∈ d.tablesStream.tables,
      p.1.widths d.width = (Image.sizesOf d.debugStream d.tablesStream.header).columns p.1 := by
    intro p hp
    rw [d.widths_eq hd.locals (d.tablesStream.mem_tables.mp hp),
      d.tablesStream.widths_eq d.debugStream]
  obtain ⟨m, hm, -, -, h1, h2, h3, hview⟩ := Image.ofStreams_written d.container.root _ hp hr
    (Block.holds_of_prefix hpdb) (fits_debugStream hd)
    (Block.holds_of_prefix hrows) (fits_tablesStream hd) hw
  refine ⟨m, ?_, ?_, ?_, ?_, fun t => (hview t).1, fun t => (hview t).2⟩
  · unfold Image.read
    rw [if_pos hsig, hroot]
    simp only
    rw [hdir]; exact hm
  · rw [h1, hs]; exact hstrings
  · rw [h2, hb]; exact hblobs
  · rw [h3, hg]; exact hguids

end Draft

end DebugMetadata
