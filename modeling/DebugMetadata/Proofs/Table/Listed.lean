import DebugMetadata.Proofs.Result
import DebugMetadata.Table.Row

/-!
# Rows one by one and together

A table that can be listed holds all its rows, so each row of the listing can
also be read alone and comes out the same (`rows_eq_ok_iff_mapM`). It makes no
difference whether the rows are looked up at their positions or read one after
the other (`rows_eq_readMany?`).
-/

namespace DebugMetadata

namespace TableView

/-- What the rows of a listing have in a column, in table order. -/
def columnOf (c : Column) (rows : List (Nat × Row)) : List Nat := rows.map fun p => p.2.get c

variable {v : TableView}

theorem position_add_rowSize_le {i : Nat} (h1 : 1 ≤ i) (h2 : i ≤ v.count) :
    v.position i + v.rowSize ≤ v.offset + v.count * v.rowSize := by
  have hm : (i - 1 + 1) * v.rowSize ≤ v.count * v.rowSize := Nat.mul_le_mul_right _ (by omega)
  rw [Nat.add_one_mul] at hm
  unfold position; omega

theorem row_eq_ok_iff {i : Int} {r : Row} : v.row i = .ok r ↔
    ∃ k : Nat, i = k ∧ (1 ≤ k ∧ k ≤ v.count) ∧ v.position k + v.rowSize ≤ v.stream.size ∧
      r = v.rowAt k := by
  constructor
  · intro h
    unfold row at h
    by_cases hi : 1 ≤ i ∧ i ≤ v.count
    · rw [if_pos hi] at h
      obtain ⟨k, rfl⟩ := Int.eq_ofNat_of_zero_le (a := i) (by omega)
      rw [Int.toNat_natCast] at h
      by_cases hfit : v.position k + v.rowSize ≤ v.stream.size
      · rw [Block.read?, if_pos hfit] at h
        cases h
        exact ⟨k, rfl, by omega, hfit, rfl⟩
      · rw [Block.read?, if_neg hfit] at h; cases h
    · rw [if_neg hi] at h; cases h
  · rintro ⟨k, rfl, ⟨h1, h2⟩, hfit, rfl⟩
    unfold row
    rw [if_pos ⟨by omega, by omega⟩, Int.toNat_natCast, Block.read?, if_pos hfit]
    rfl

section
variable {rows : List (Nat × Row)} (h : v.rows = .ok rows)
include h

theorem rows_eq_map : rows = (List.range' 1 v.count).map fun i => (i, v.rowAt i) := by
  unfold TableView.rows at h
  by_cases hz : v.count = 0
  · rw [if_pos hz] at h
    cases h
    rw [hz]; rfl
  · rw [if_neg hz] at h
    split at h
    · cases h; rfl
    · cases h

theorem nodup_rows : rows.Nodup := by
  rw [rows_eq_map h]
  refine List.Pairwise.map _ ?_ List.nodup_range'
  intro i j hij heq
  exact hij (Prod.mk.inj heq).1

theorem columnOf_eq_map (c : Column) :
    columnOf c rows = (List.range' 1 v.count).map fun i => (v.rowAt i).get c := by
  rw [rows_eq_map h, columnOf, List.map_map]; rfl

theorem mem_rows_iff {p : Nat × Row} :
    p ∈ rows ↔ (1 ≤ p.1 ∧ p.1 ≤ v.count) ∧ p.2 = v.rowAt p.1 := by
  rw [rows_eq_map h, List.mem_map]
  constructor
  · rintro ⟨i, hi, rfl⟩
    rw [List.mem_range'_1] at hi
    exact ⟨by omega, rfl⟩
  · rintro ⟨hi, hr⟩
    exact ⟨p.1, List.mem_range'_1.mpr (by omega), by rw [← hr]⟩

theorem fits_of_rows (hz : v.count ≠ 0) : v.offset + v.count * v.rowSize ≤ v.stream.size := by
  unfold TableView.rows at h
  rw [if_neg hz] at h
  by_cases hfit : v.offset + v.count * v.rowSize ≤ v.stream.size
  · exact hfit
  · rw [if_neg hfit] at h; cases h

theorem row_of_rows {i : Nat} (h1 : 1 ≤ i) (h2 : i ≤ v.count) : v.row i = .ok (v.rowAt i) := by
  have hfit := fits_of_rows h (by omega)
  have hpos := position_add_rowSize_le h1 h2
  exact row_eq_ok_iff.mpr ⟨i, rfl, ⟨h1, h2⟩, by omega, rfl⟩

end

/-! ## When rows can be read -/

theorem position_add_rowSize {k : Nat} (h : 1 ≤ k) :
    v.position k + v.rowSize = v.offset + k * v.rowSize := by
  have hk : k * v.rowSize = (k - 1) * v.rowSize + v.rowSize := by
    rw [← Nat.add_one_mul, Nat.sub_add_cancel h]
  unfold position; omega

theorem exists_row_iff {i : Int} :
    (∃ r, v.row i = .ok r) ↔ 1 ≤ i ∧ i ≤ v.count ∧ v.offset + i * v.rowSize ≤ v.stream.size := by
  constructor
  · intro h
    obtain ⟨r, hr⟩ := h
    obtain ⟨k, rfl, hk, hfit, -⟩ := row_eq_ok_iff.mp hr
    rw [position_add_rowSize hk.1] at hfit
    exact ⟨by omega, by omega, by exact_mod_cast hfit⟩
  · intro h
    obtain ⟨k, rfl⟩ := Int.eq_ofNat_of_zero_le (a := i) (by omega)
    have hk : 1 ≤ k ∧ k ≤ v.count := by omega
    refine ⟨v.rowAt k, row_eq_ok_iff.mpr ⟨k, rfl, hk, ?_, rfl⟩⟩
    rw [position_add_rowSize hk.1]
    exact_mod_cast h.2.2

theorem exists_row_of_le {i j : Int} (hi : 1 ≤ i) (hij : i ≤ j) (h : ∃ r, v.row j = .ok r) :
    ∃ r, v.row i = .ok r := by
  rw [exists_row_iff] at h ⊢
  have hm : i * v.rowSize ≤ j * v.rowSize := Int.mul_le_mul_of_nonneg_right hij (by omega)
  omega

theorem exists_rows_iff :
    (∃ rows, v.rows = .ok rows) ↔ v.count = 0 ∨ ∃ r, v.row v.count = .ok r := by
  rw [exists_row_iff]
  unfold rows
  by_cases hz : v.count = 0
  · simp [hz]
  · have hcount : (1 : Int) ≤ v.count := by omega
    have hfit : (v.offset + (v.count : Int) * v.rowSize ≤ v.stream.size) ↔
        v.offset + v.count * v.rowSize ≤ v.stream.size := by norm_cast
    rw [if_neg hz, hfit]
    by_cases hle : v.offset + v.count * v.rowSize ≤ v.stream.size
    · simp [hle, hcount]
    · simp [hle, hz]

theorem exists_rows_iff_forall :
    (∃ rows, v.rows = .ok rows) ↔ ∀ i : Nat, 1 ≤ i → i ≤ v.count → ∃ r, v.row i = .ok r := by
  constructor
  · intro h i h1 h2
    obtain ⟨rows, hrows⟩ := h
    exact ⟨_, row_of_rows hrows h1 h2⟩
  · intro h
    rw [exists_rows_iff]
    by_cases hz : v.count = 0
    · exact .inl hz
    · exact .inr (h v.count (by omega) (Nat.le_refl _))

theorem rows_eq_ok_iff_mapM {rows : List (Nat × Row)} :
    v.rows = .ok rows ↔
      (List.range' 1 v.count).mapM (fun i : Nat => (v.row i).map (i, ·)) = .ok rows := by
  have hall : ∀ rows, v.rows = .ok rows →
      (List.range' 1 v.count).mapM (fun i : Nat => (v.row i).map (i, ·)) = .ok rows := by
    intro rows h
    rw [rows_eq_map h]
    refine mapM_of_ok fun i hi => ?_
    rw [List.mem_range'_1] at hi
    rw [row_of_rows h hi.1 (by omega)]
    rfl
  constructor
  · exact hall rows
  · intro h
    have hrow : ∀ i : Nat, 1 ≤ i → i ≤ v.count → ∃ r, v.row i = .ok r := by
      intro i h1 h2
      obtain ⟨p, hp⟩ := mapM_exists_ok_iff.mp ⟨rows, h⟩ i (List.mem_range'_1.mpr (by omega))
      obtain ⟨r, hr, -⟩ := map_eq_ok_iff.mp hp
      exact ⟨r, hr⟩
    obtain ⟨rows', hrows⟩ := exists_rows_iff_forall.mpr hrow
    rw [hall rows' hrows] at h
    rw [hrows, Except.ok.inj h]

end TableView

/-! ## Rows one after the other -/

/-- The rows that come one after the other in a list of bytes, if it holds all of them. -/
def Row.readMany? (columns : List (Column × Nat)) : (count : Nat) → List UInt8 → Option (List Row)
  | 0, _ => some []
  | count + 1, bs =>
    if Column.totalSize columns ≤ bs.length then
      (readMany? columns count (bs.drop (Column.totalSize columns))).map
        (Row.decode columns (bs.take (Column.totalSize columns)) :: ·)
    else none

namespace TableView

variable {v : TableView}

theorem position_succ {i : Nat} (h : 1 ≤ i) : v.position (i + 1) = v.position i + v.rowSize := by
  rw [position_add_rowSize h, position, Nat.add_sub_cancel]

theorem decode_take (i : Nat) :
    Row.decode v.columns ((v.stream.toList.drop (v.position i)).take (Column.totalSize v.columns)) =
      v.rowAt i := by
  rw [rowAt, Block.toList_slice]; rfl

theorem readMany?_eq (hsize : 0 < v.rowSize) {count i : Nat} (hi : 1 ≤ i) :
    Row.readMany? v.columns count (v.stream.toList.drop (v.position i)) =
      if count = 0 ∨ v.position i + count * v.rowSize ≤ v.stream.size then
        some ((List.range' i count).map v.rowAt)
      else none := by
  have hs : Column.totalSize v.columns = v.rowSize := rfl
  induction count generalizing i with
  | zero => rw [if_pos (.inl rfl)]; rfl
  | succ count ih =>
    rw [Row.readMany?, decode_take, hs, List.drop_drop, ← position_succ hi, ih (by omega),
      List.length_drop, Array.length_toList, position_succ hi, Nat.succ_mul]
    by_cases hfit : v.position i + (count * v.rowSize + v.rowSize) ≤ v.stream.size
    · rw [if_pos (by omega), if_pos (.inr (by omega)), if_pos (.inr hfit)]; rfl
    · rw [if_neg (c := count + 1 = 0 ∨ _) (by omega)]
      by_cases hfirst : v.rowSize ≤ v.stream.size - v.position i
      · rw [if_pos hfirst, if_neg]
        · rfl
        · intro h
          cases h with
          | inl hz => rw [hz, Nat.zero_mul] at hfit; omega
          | inr hle => omega
      · rw [if_neg hfirst]

theorem rows_eq_readMany? (hsize : 0 < v.rowSize) :
    v.rows = match Row.readMany? v.columns v.count (v.stream.toList.drop v.offset) with
      | some rows => .ok ((List.range' 1 v.count).zip rows)
      | none => .error (.truncatedTable v.count) := by
  have hpos : v.position 1 = v.offset := by rw [position, Nat.sub_self, Nat.zero_mul, Nat.add_zero]
  rw [← hpos, readMany?_eq hsize (Nat.le_refl 1), hpos]
  unfold rows
  by_cases hz : v.count = 0
  · simp [hz]
  · by_cases hfit : v.offset + v.count * v.rowSize ≤ v.stream.size
    · rw [if_neg hz, if_pos hfit, if_pos (.inr hfit), List.map_prod_left_eq_zip]
    · simp [hz, hfit]

end TableView

end DebugMetadata
