import DebugMetadata.Proofs.Image.Layout
import DebugMetadata.Proofs.Image.Question

/-!
# Rows of an opened file

All rows of a table can be listed exactly if its last row can be read alone, and
then the listing has the rows that are read one by one (`listing_eq_single_rows`).
A stream that ends early takes away the rows from some number on, and with them
the whole listing.
-/

namespace DebugMetadata

namespace Image

theorem Opened.stream_view {file pdb : Block} {m : Image} (h : Opened file m pdb) (t : DebugTable) :
    ∃ e, Keyed.find? "#~" m.directory = some e ∧
      (m.view t).stream = file.slice e.offset e.size := by
  obtain ⟨e, he, hs⟩ := Option.map_eq_some_iff.mp h.rowStream
  exact ⟨e, he, (m.stream_view t).trans hs.symm⟩

theorem ask_rows (m : Image) (t : DebugTable) : m.ask (.rows t none) = (m.view t).rows := by
  cases hrows : (m.view t).rows with
  | ok rows => simp [ask, hrows, Listing.ofExcept, Listing.upTo, Listing.all]
  | error e => simp [ask, hrows, Listing.ofExcept, Listing.upTo, Listing.all]

theorem ask_rows_of_error {m : Image} {t : DebugTable} {e : Error}
    (h : (m.view t).rows = .error e) (n : Nat) : m.ask (.rows t (some (n + 1))) = .error e := by
  simp [ask, h, Listing.ofExcept, Listing.upTo, Listing.all]

/-- Whatever file is opened, each of its tables gives the same rows all together,
one by one and one after the other, as far as the tables stream holds them. -/
theorem listing_eq_single_rows (file : Block) (m : Image) (hm : read file = .ok m)
    (t : DebugTable) :
    (∃ e, Keyed.find? "#~" m.directory = some e ∧ (m.view t).stream = file.slice e.offset e.size) ∧
    (∀ i, (∃ r, m.ask (.row t i) = .ok r) ↔
      1 ≤ i ∧ i ≤ (m.view t).count ∧
      (m.view t).offset + i * (m.view t).rowSize ≤ (m.view t).stream.size) ∧
    (∀ i j, 1 ≤ i → i ≤ j → (∃ r, m.ask (.row t j) = .ok r) → ∃ r, m.ask (.row t i) = .ok r) ∧
    ((∃ rows, m.ask (.rows t none) = .ok rows) ↔
      (m.view t).count = 0 ∨ ∃ r, m.ask (.row t (m.view t).count) = .ok r) ∧
    ((∃ rows, m.ask (.rows t none) = .ok rows) ↔
      ∀ i : Nat, 1 ≤ i → i ≤ (m.view t).count → ∃ r, m.ask (.row t i) = .ok r) ∧
    (∀ rows, m.ask (.rows t none) = .ok rows ↔
      (List.range' 1 (m.view t).count).mapM (fun i : Nat => (m.ask (.row t i)).map (i, ·)) =
        .ok rows) ∧
    (m.ask (.rows t none) =
      match Row.readMany? (m.view t).columns (m.view t).count ((m.view t).stream.toList.drop (m.view t).offset) with
      | some rows => .ok ((List.range' 1 (m.view t).count).zip rows)
      | none => .error (.truncatedTable (m.view t).count)) ∧
    ∀ e, m.ask (.rows t none) = .error e → ∀ n, m.ask (.rows t (some (n + 1))) = .error e := by
  obtain ⟨pdb, h⟩ := opened_of_read hm
  have hsize : 0 < (m.view t).rowSize := by
    rw [rowSize_view]
    exact m.sizes.rowSize_pos t
  rw [ask_rows]
  exact ⟨h.stream_view t, fun i => TableView.exists_row_iff, fun i j => TableView.exists_row_of_le,
    TableView.exists_rows_iff, TableView.exists_rows_iff_forall,
      fun rows => TableView.rows_eq_ok_iff_mapM,
    TableView.rows_eq_readMany? hsize, fun e he n => ask_rows_of_error he n⟩

/-- A file with three variables, of which the stream ends in the third. -/
def cutFile : Block := (Container.written ⟨1, 1, padded [0x50],
  [("#Pdb", (DebugStream.mk (List.replicate 20 7) 0 0 []).written),
    ("#~", (TablesHeader.mk 0 2 0 0 1 (Bits.mask [0x33]) 0 [(0x33, 3)]).written 0 ++
      [0, 0, 0, 0, 1, 0, 0, 0, 1, 0, 2, 0, 0, 0, 2, 0])]⟩).toArray

theorem cutFile_rows : ∃ m, read cutFile = .ok m ∧ (∃ r, m.ask (.row .localVariable 2) = .ok r) ∧
    (¬ ∃ r, m.ask (.row .localVariable 3) = .ok r) ∧
    ¬ ∃ rows, m.ask (.rows .localVariable none) = .ok rows := by
  have hopen : ((read cutFile).toOption.any fun m => (m.view .localVariable).count == 3 &&
      (m.view .localVariable).offset == 28 && (m.view .localVariable).rowSize == 6 &&
      (m.view .localVariable).stream.size == 44) = true := by
    decide +kernel
  obtain ⟨m, hm, hview⟩ := exists_ok_of_any hopen
  simp only [Bool.and_eq_true, beq_iff_eq] at hview
  obtain ⟨⟨⟨hcount, hoffset⟩, hsize⟩, hstream⟩ := hview
  obtain ⟨-, hrow, -, hlast, -⟩ := listing_eq_single_rows cutFile m hm .localVariable
  rw [hcount, hoffset, hsize, hstream] at hrow
  rw [hcount] at hlast
  have hthird : ¬ ∃ r, m.ask (.row .localVariable 3) = .ok r := by
    rw [hrow]
    decide
  refine ⟨m, hm, (hrow 2).mpr (by decide), hthird, ?_⟩
  rw [hlast]
  exact fun h => h.elim (by decide) hthird

end Image

end DebugMetadata
