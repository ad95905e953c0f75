import DebugMetadata.Proofs.Image.Opened
import DebugMetadata.Proofs.Image.Tables
import DebugMetadata.Proofs.Table.Listed

/-!
# Layout of the tables

The tables of an opened file are those of its mask, and follow each other without
a gap behind the header of their stream, each with as many rows as its count says
(`tables_laid_out`). All of this is so whether or not the stream is long enough for
the rows.
-/

namespace DebugMetadata

/-! ## Row sizes -/

theorem Column.totalSize_eq_sum (columns : List (Column × Nat)) :
    totalSize columns = (columns.map (·.2)).sum := by
  induction columns with
  | nil => rfl
  | cons c columns ih => rw [totalSize, ih, List.map_cons, List.sum_cons]

theorem Sizes.rowSize_pos (s : Sizes) (t : DebugTable) : 0 < s.rowSize t := by
  apply t.totalSize_widths_pos
  intro c
  have hw := s.width_eq c
  omega

/-! ## Places one after the other -/

namespace TablePlace

variable (sizes : Sizes)

def size (p : TablePlace) : Nat := p.count * sizes.rowSize p.table

def stop (p : TablePlace) : Nat := p.offset + p.size sizes

/-- Each table starts where the one before it stops. -/
def Packed : (offset : Nat) → List TablePlace → Prop
  | _, [] => True
  | offset, p :: ps => p.offset = offset ∧ Packed (p.stop sizes) ps

variable {sizes}

theorem packed_of_locate {offset : Nat} {counts : RowCounts} {ps : List TablePlace}
    (h : locate sizes offset counts = .ok ps) :
    counts = ps.map (fun p => (p.table.number, p.count)) ∧ Packed sizes offset ps := by
  induction counts generalizing offset ps with
  | nil => cases h; exact ⟨rfl, trivial⟩
  | cons c counts ih =>
    obtain ⟨number, count⟩ := c
    rw [locate] at h
    cases ht : DebugTable.ofNumber? number with
    | none => rw [ht] at h; cases h
    | some t =>
      rw [ht] at h
      obtain ⟨rest, hrest, rfl⟩ := map_eq_ok_iff.mp h
      obtain ⟨hcounts, hpacked⟩ := ih hrest
      refine ⟨?_, rfl, hpacked⟩
      rw [List.map_cons, ← hcounts, DebugTable.number_of_ofNumber? ht]

section
variable {offset : Nat} {ps : List TablePlace} (h : Packed sizes offset ps)
include h

theorem Packed.le_offset : ∀ p ∈ ps, offset ≤ p.offset := by
  induction ps generalizing offset with
  | nil => simp
  | cons p ps ih =>
    obtain ⟨rfl, hrest⟩ := h
    refine List.forall_mem_cons.mpr ⟨Nat.le_refl _, fun q hq => ?_⟩
    have hle := ih hrest q hq
    unfold stop at hle
    omega

theorem Packed.pairwise : ps.Pairwise fun p q => p.stop sizes ≤ q.offset := by
  induction ps generalizing offset with
  | nil => exact .nil
  | cons p ps ih => exact .cons h.2.le_offset (ih h.2)

theorem Packed.stop_le_or {p q : TablePlace} (hp : p ∈ ps) (hq : q ∈ ps) (hne : p ≠ q) :
    p.stop sizes ≤ q.offset ∨ q.stop sizes ≤ p.offset := by
  let Apart (p q : TablePlace) : Prop := p.stop sizes ≤ q.offset ∨ q.stop sizes ≤ p.offset
  have hsymm : Std.Symm Apart := ⟨fun _ _ => Or.symm⟩
  have hapart : ps.Pairwise Apart := h.pairwise.imp Or.inl
  exact hapart.forall hp hq hne

theorem Packed.isChain : ps.IsChain fun p q => p.stop sizes = q.offset := by
  induction ps generalizing offset with
  | nil => exact .nil
  | cons p ps ih =>
    cases ps with
    | nil => exact .singleton p
    | cons q ps => exact .cons_cons h.2.1.symm (ih h.2)

theorem Packed.offset_eq (hps : ps.Pairwise fun p q => p.table.number < q.table.number)
    {p : TablePlace} (hp : p ∈ ps) :
    p.offset =
      offset + ((ps.filter fun q => q.table.number < p.table.number).map (size sizes)).sum := by
  induction ps generalizing offset with
  | nil => cases hp
  | cons q ps ih =>
    obtain ⟨rfl, hrest⟩ := h
    rw [List.pairwise_cons] at hps
    cases List.mem_cons.mp hp with
    | inl heq =>
      have hnone : ps.filter (fun q' => q'.table.number < q.table.number) = [] := by
        rw [List.filter_eq_nil_iff]
        intro q' hq'
        have := hps.1 q' hq'
        simp only [decide_eq_true_eq]
        omega
      rw [heq, List.filter_cons_of_neg (by simp), hnone, List.map_nil, List.sum_nil, Nat.add_zero]
    | inr hmem =>
      rw [List.filter_cons_of_pos (by simpa using hps.1 p hmem), List.map_cons, List.sum_cons,
        ih hrest hps.2 hmem, stop, Nat.add_assoc]

end

theorem find?_of_mem {ps : List TablePlace}
    (h : ps.Pairwise fun p q => p.table.number < q.table.number)
    {p : TablePlace} (hp : p ∈ ps) : ps.find? (fun q => q.table == p.table) = some p := by
  induction ps with
  | nil => cases hp
  | cons q ps ih =>
    rw [List.pairwise_cons] at h
    cases List.mem_cons.mp hp with
    | inl heq => rw [heq, List.find?_cons_of_pos (by simp)]
    | inr hmem =>
      have hne : q.table ≠ p.table := fun heq => Nat.lt_irrefl _ (heq ▸ h.1 p hmem)
      rw [List.find?_cons_of_neg (by simpa using hne), ih h.2 hmem]

end TablePlace

/-! ## Bytes of rows -/

namespace TableView

variable {v w : TableView}

/-- The positions of the bytes of a row, also of those behind the end of the stream. -/
def span (v : TableView) (i : Nat) : Set Nat := Set.Ico (v.position i) (v.position i + v.rowSize)

theorem position_add_rowSize_le_position {i j : Nat} (hi : 1 ≤ i) (hij : i < j) :
    v.position i + v.rowSize ≤ v.position j := by
  have hm : (i - 1 + 1) * v.rowSize ≤ (j - 1) * v.rowSize := Nat.mul_le_mul_right _ (by omega)
  rw [Nat.add_one_mul] at hm
  unfold position; omega

theorem disjoint_span {i j : Nat} (h : v.position i + v.rowSize ≤ w.position j) :
    Disjoint (v.span i) (w.span j) := by
  rw [span, span, Set.Ico_disjoint_Ico]
  omega

theorem disjoint_span_of_ne {i j : Nat} (hi : 1 ≤ i) (hj : 1 ≤ j) (hij : i ≠ j) :
    Disjoint (v.span i) (v.span j) := by
  rcases Nat.lt_or_gt_of_ne hij with hlt | hlt
  · exact disjoint_span (position_add_rowSize_le_position hi hlt)
  · exact (disjoint_span (position_add_rowSize_le_position hj hlt)).symm

theorem disjoint_span_of_stop_le (h : v.offset + v.count * v.rowSize ≤ w.offset) {i j : Nat}
    (h1 : 1 ≤ i)
    (h2 : i ≤ v.count) : Disjoint (v.span i) (w.span j) := by
  have hle := position_add_rowSize_le h1 h2
  apply disjoint_span
  unfold position at *
  omega

end TableView

namespace Image

/-- How the tables of a file lie in their stream, where `#~` has this byte of heap
flags and this mask, and `#Pdb` this mask of tables that are referred to. -/
structure Layout (m : Image) (pdb : Block) (heapSizes valid referenced : Nat) : Prop where
  tables : m.places.map (·.table.number) = (List.range 64).filter valid.testBit
  debugTables : ∀ n, valid.testBit n = true → 0x30 ≤ n ∧ n ≤ 0x37
  counted : ∀ n, valid.testBit n = true →
    ∃ c, m.rowStream.number? (24 + 4 * Bits.rank valid n) 4 = some c ∧
    Keyed.find? n m.rowCounts = some c
  referredTo : ∀ n, valid.testBit n = false → referenced.testBit n = true →
    ∃ c, pdb.number? (32 + 4 * Bits.rank referenced n) 4 = some c ∧
      Keyed.find? n m.rowCounts = some c
  uncounted : ∀ n, valid.testBit n = false → referenced.testBit n = false →
    Keyed.find? n m.rowCounts = none
  counts : ∀ p ∈ m.places,
    m.rowStream.number? (24 + 4 * Bits.rank valid p.table.number) 4 = some p.count
  offsets : ∀ p ∈ m.places,
    p.offset = 24 + 4 * Bits.rank valid 64 + (if heapSizes &&& 0x40 = 0 then 0 else 4) +
    ((m.places.filter fun q => q.table.number < p.table.number).map fun q =>
      q.count * (m.view q.table).rowSize).sum
  present : ∀ p ∈ m.places,
    m.view p.table = ⟨m.rowStream, p.offset, p.count, m.sizes.columns p.table⟩
  absent : ∀ t, valid.testBit t.number = false → (m.view t).count = 0
  widths : ∀ t, (m.view t).columns =
    t.widths fun c =>
      if c.isWide heapSizes fun n => (Keyed.find? n m.rowCounts).getD 0 then 4 else 2
  rowSizes : ∀ t, (m.view t).rowSize = ((m.view t).columns.map (·.2)).sum ∧ 0 < (m.view t).rowSize
  touching : m.places.IsChain fun p q => p.offset + p.count * (m.view p.table).rowSize = q.offset
  rows : ∀ t u i j, 1 ≤ i → i ≤ (m.view t).count → 1 ≤ j → j ≤ (m.view u).count → (t, i) ≠ (u, j) →
    Disjoint ((m.view t).span i) ((m.view u).span j)

theorem rowSize_view (m : Image) (t : DebugTable) : (m.view t).rowSize = m.sizes.rowSize t := by
  rw [TableView.rowSize, columns_view]; rfl

section
variable {file pdb : Block} {m : Image} (h : Opened file m pdb)
include h

theorem Opened.valid_lt : m.header.valid < 2 ^ 64 :=
  (Block.number?_eq_some_iff.mp (TablesHeader.fields_of_read? h.header).2.1).1

theorem Opened.referenced_lt : m.debug.referenced < 2 ^ 64 :=
  (Block.number?_eq_some_iff.mp (DebugStream.fields_of_read? h.debug).1).1

theorem Opened.numbers : m.places.map (·.table.number) = Bits.positions m.header.valid := by
  rw [← RowCounts.map_fst_of_read? (TablesHeader.fields_of_read? h.header).2.2,
    (TablePlace.packed_of_locate h.places).1, List.map_map]
  rfl

theorem Opened.ascending : m.places.Pairwise fun p q => p.table.number < q.table.number := by
  rw [← List.pairwise_map (f := fun p : TablePlace => p.table.number), h.numbers]
  exact Bits.positions_pairwise _

theorem Opened.testBit_iff {n : Nat} :
    m.header.valid.testBit n = true ↔ ∃ p ∈ m.places, p.table.number = n := by
  rw [← Bits.mem_positions, ← h.numbers, List.mem_map]

/-! ## Counts -/

theorem Opened.find?_rowCounts (n : Nat) :
    Keyed.find? n m.rowCounts =
      (Keyed.find? n m.header.counts).or (Keyed.find? n m.debug.counts) := by
  unfold rowCounts
  rw [Keyed.find?_filterMap]
  by_cases hn : n < 64
  · rw [if_pos (List.mem_range.mpr hn)]
  · have hvalid : m.header.valid.testBit n = false :=
      Bool.eq_false_iff.mpr fun hb => hn (Bits.lt_of_testBit h.valid_lt hb)
    have hreferenced : m.debug.referenced.testBit n = false :=
      Bool.eq_false_iff.mpr fun hb => hn (Bits.lt_of_testBit h.referenced_lt hb)
    rw [if_neg (by simpa using hn),
      RowCounts.find?_of_not_testBit (TablesHeader.fields_of_read? h.header).2.2 hvalid,
      RowCounts.find?_of_not_testBit (DebugStream.fields_of_read? h.debug).2 hreferenced]
    rfl

theorem Opened.rowCount_eq (n : Nat) : m.rowCount n = (Keyed.find? n m.rowCounts).getD 0 := by
  rw [h.find?_rowCounts]; rfl

theorem Opened.find?_counts {p : TablePlace} (hp : p ∈ m.places) :
    Keyed.find? p.table.number m.header.counts = some p.count := by
  have hfields := (TablesHeader.fields_of_read? h.header).2.2
  have hmap := (TablePlace.packed_of_locate h.places).1
  apply Keyed.find?_of_mem
  · rw [RowCounts.map_fst_of_read? hfields]
    exact (Bits.positions_pairwise _).imp Nat.ne_of_lt
  · rw [hmap]
    exact List.mem_map_of_mem hp

/-! ## Views -/

theorem Opened.view_eq {p : TablePlace} (hp : p ∈ m.places) :
    m.view p.table = ⟨m.rowStream, p.offset, p.count, m.sizes.columns p.table⟩ := by
  unfold view
  rw [TablePlace.find?_of_mem h.ascending hp]

theorem Opened.count_of_not_testBit {t : DebugTable}
    (ht : m.header.valid.testBit t.number = false) : (m.view t).count = 0 := by
  unfold view
  split
  · next p hp =>
    have htable : p.table = t := by simpa using List.find?_some hp
    rw [h.testBit_iff.mpr ⟨p, List.mem_of_find?_eq_some hp, congrArg DebugTable.number htable⟩] at ht
    cases ht
  · rfl

theorem Opened.exists_place {t : DebugTable} {i : Nat} (h1 : 1 ≤ i) (h2 : i ≤ (m.view t).count) :
    ∃ p ∈ m.places, p.table = t := by
  by_cases ht : m.header.valid.testBit t.number = true
  · obtain ⟨p, hp, hn⟩ := h.testBit_iff.mp ht
    refine ⟨p, hp, ?_⟩
    have hnumber := DebugTable.ofNumber?_number p.table
    rw [hn, DebugTable.ofNumber?_number] at hnumber
    exact (Option.some.inj hnumber).symm
  · rw [h.count_of_not_testBit (Bool.eq_false_iff.mpr ht)] at h2
    omega

theorem Opened.stop_eq {p : TablePlace} (hp : p ∈ m.places) :
    p.stop m.sizes =
      (m.view p.table).offset + (m.view p.table).count * (m.view p.table).rowSize := by
  rw [rowSize_view, h.view_eq hp]; rfl

theorem Opened.disjoint_rows {t u : DebugTable} {i j : Nat} (hi : 1 ≤ i)
    (hi' : i ≤ (m.view t).count) (hj : 1 ≤ j)
    (hj' : j ≤ (m.view u).count) (hne : (t, i) ≠ (u, j)) :
      Disjoint ((m.view t).span i) ((m.view u).span j) := by
  -- tables stop before the next one starts, and rows of one table have one size
  by_cases htu : t = u
  · subst htu
    exact TableView.disjoint_span_of_ne hi hj fun hij => hne (by rw [hij])
  · obtain ⟨p, hp, rfl⟩ := h.exists_place hi hi'
    obtain ⟨q, hq, rfl⟩ := h.exists_place hj hj'
    have hpq :=
      (TablePlace.packed_of_locate h.places).2.stop_le_or hp hq fun heq => htu (congrArg _ heq)
    have hqo : (m.view q.table).offset = q.offset := by rw [h.view_eq hq]
    have hpo : (m.view p.table).offset = p.offset := by rw [h.view_eq hp]
    rw [h.stop_eq hp, h.stop_eq hq, ← hqo, ← hpo] at hpq
    cases hpq with
    | inl hle => exact TableView.disjoint_span_of_stop_le hle hi hi'
    | inr hle => exact (TableView.disjoint_span_of_stop_le hle hj hj').symm

theorem Opened.offset_eq {p : TablePlace} (hp : p ∈ m.places) :
    p.offset =
      24 + 4 * Bits.rank m.header.valid 64 + (if m.header.heapSizes &&& 0x40 = 0 then 0 else 4) +
      ((m.places.filter fun q => q.table.number < p.table.number).map fun q =>
        q.count * (m.view q.table).rowSize).sum := by
  have hextra : TablesHeader.hasExtra m.header.heapSizes = (m.header.heapSizes &&& 0x40 != 0) :=
    testBit_eq_and _ _
  have hlength : m.header.counts.length = Bits.rank m.header.valid 64 := by
    rw [← Bits.length_positions h.valid_lt,
      ← RowCounts.map_fst_of_read? (TablesHeader.fields_of_read? h.header).2.2,
      List.length_map]
  have hsize : m.header.size = 24 + 4 * Bits.rank m.header.valid 64 +
      if m.header.heapSizes &&& 0x40 = 0 then 0 else 4 := by
    unfold TablesHeader.size
    rw [hextra, hlength, TablesHeader.countsOffset]
    by_cases hx : m.header.heapSizes &&& 0x40 = 0
    · simp [hx]
    · simp [hx]
  rw [(TablePlace.packed_of_locate h.places).2.offset_eq h.ascending hp, hsize]
  simp only [rowSize_view]
  rfl

theorem Opened.layout : m.Layout pdb m.header.heapSizes m.header.valid m.debug.referenced where
  tables := h.numbers.trans (Bits.positions_eq_filter h.valid_lt)
  debugTables := by
    intro n hn
    obtain ⟨p, _, rfl⟩ := h.testBit_iff.mp hn
    cases p.table <;> decide
  -- counts are found in the stream whose mask has the table, that of rows before the other
  counted := by
    intro n hn
    obtain ⟨c, hfind, hc⟩ :=
      RowCounts.find?_of_testBit (TablesHeader.fields_of_read? h.header).2.2 hn
    exact ⟨c, hc, by rw [h.find?_rowCounts, hfind]; rfl⟩
  referredTo := by
    intro n hn hr
    obtain ⟨c, hfind, hc⟩ := RowCounts.find?_of_testBit (DebugStream.fields_of_read? h.debug).2 hr
    refine ⟨c, hc, ?_⟩
    rw [h.find?_rowCounts,
      RowCounts.find?_of_not_testBit (TablesHeader.fields_of_read? h.header).2.2 hn, hfind]
    rfl
  uncounted := by
    intro n hn hr
    rw [h.find?_rowCounts,
      RowCounts.find?_of_not_testBit (TablesHeader.fields_of_read? h.header).2.2 hn,
      RowCounts.find?_of_not_testBit (DebugStream.fields_of_read? h.debug).2 hr]
    rfl
  counts := by
    intro p hp
    obtain ⟨c, hfind, hc⟩ := RowCounts.find?_of_testBit (TablesHeader.fields_of_read? h.header).2.2
      (h.testBit_iff.mpr ⟨p, hp, rfl⟩)
    rw [h.find?_counts hp] at hfind
    rw [Option.some.inj hfind]
    exact hc
  offsets := fun p => h.offset_eq
  present := fun p => h.view_eq
  absent := fun t => h.count_of_not_testBit
  widths := by
    intro t
    rw [columns_view]
    refine List.map_congr_left fun c _ => congrArg (Prod.mk c.1) ?_
    rw [Sizes.width_eq_isWide, ← funext h.rowCount_eq]
    rfl
  rowSizes := fun t =>
    ⟨Column.totalSize_eq_sum _, by rw [rowSize_view]; exact m.sizes.rowSize_pos t⟩
  touching := by
    have hchain := (TablePlace.packed_of_locate h.places).2.isChain
    refine hchain.imp fun p q hpq => ?_
    rw [rowSize_view]
    exact hpq
  rows := fun t u i j => h.disjoint_rows

end

/-- Every file that opens has its tables laid out by the masks and counts that it
holds, also if it ends before the rows do. -/
theorem tables_laid_out (file : Block) (m : Image) (hm : read file = .ok m) :
    ∃ pdb heapSizes valid referenced, m.directory.stream? file "#Pdb" = some pdb ∧
      m.directory.stream? file "#~" = some m.rowStream ∧ m.rowStream.number? 6 1 = some heapSizes ∧
      m.rowStream.number? 8 8 = some valid ∧ pdb.number? 24 8 = some referenced ∧
      m.Layout pdb heapSizes valid referenced := by
  obtain ⟨pdb, h⟩ := opened_of_read hm
  obtain ⟨hheaps, hvalid, -⟩ := TablesHeader.fields_of_read? h.header
  obtain ⟨hreferenced, -⟩ := DebugStream.fields_of_read? h.debug
  exact ⟨pdb, _, _, _, h.debugStream, h.rowStream, hheaps, hvalid, hreferenced, h.layout⟩

/-- A file with the counts of three tables and a word of extra data, but no rows. The
count of methods makes one column wide, and that of scopes gives way to the one in `#~`. -/
def rowlessFile : Block := (Container.written ⟨1, 1, padded [0x50],
  [("#Pdb", (DebugStream.mk (List.replicate 20 7) 0 (Bits.mask [0x06, 0x32]) [(0x06, 70000), (0x32, 9)]).written),
    ("#~", (TablesHeader.mk 0 2 0 0x41 1 (Bits.mask [0x32, 0x33, 0x37]) 0
      [(0x32, 3), (0x33, 70000), (0x37, 2)]).written 0)]⟩).toArray

theorem rowlessFile_laid_out : ∃ m pdb heapSizes valid referenced, read rowlessFile = .ok m ∧
    m.places =
      [⟨.localScope, 40, 3⟩, ⟨.localVariable, 100, 70000⟩, ⟨.customDebugInformation, 560100, 2⟩] ∧
    m.Layout pdb heapSizes valid referenced ∧
    Disjoint ((m.view .localVariable).span 70000) ((m.view .customDebugInformation).span 1) := by
  have hopen : ((read rowlessFile).toOption.any fun m => m.places ==
      [⟨.localScope, 40, 3⟩, ⟨.localVariable, 100, 70000⟩, ⟨.customDebugInformation, 560100, 2⟩]) =
        true := by
    decide +kernel
  obtain ⟨m, hm, hplaces⟩ := exists_ok_of_any hopen
  have hplaces := eq_of_beq hplaces
  obtain ⟨pdb, heapSizes, valid, referenced, -, -, -, -, -, hlayout⟩ :=
    tables_laid_out rowlessFile m hm
  refine ⟨m, pdb, heapSizes, valid, referenced, hm, hplaces, hlayout, ?_⟩
  have hvariables : (m.view .localVariable).count = 70000 := by
    rw [hlayout.present ⟨.localVariable, 100, 70000⟩ (by rw [hplaces]; simp)]
  have hrecords : (m.view .customDebugInformation).count = 2 := by
    rw [hlayout.present ⟨.customDebugInformation, 560100, 2⟩ (by rw [hplaces]; simp)]
  exact hlayout.rows _ _ _ _ (by decide) (by rw [hvariables]) (by decide)
    (by rw [hrecords]; decide) (by simp)

end Image

end DebugMetadata
