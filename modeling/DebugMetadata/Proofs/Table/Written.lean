import DebugMetadata.Table.Row
import DebugMetadata.Proofs.Bytes.Held

/-!
# Written rows

Rows that are packed one after the other are all read back, one by one
(`IsWritten.row_eq`) and together (`IsWritten.rows_eq`), with every value in the
column that it was written in.
-/

namespace DebugMetadata

/-! ## One row -/

namespace Row

/-- There is one value for each column, and it fits the width of the column. -/
def Fits (columns : List (Column × Nat)) (values : List Nat) : Prop :=
  columns.length = values.length ∧ ∀ p ∈ columns.zip values, p.2 < 256 ^ p.1.2

instance (columns : List (Column × Nat)) (values : List Nat) : Decidable (Fits columns values) :=
  inferInstanceAs (Decidable (_ ∧ _))

theorem Fits.nil : Fits [] [] := ⟨rfl, fun _ hp => by cases hp⟩

theorem Fits.cons {c : Column × Nat} {columns : List (Column × Nat)} {n : Nat} {values : List Nat}
    (hn : n < 256 ^ c.2) (h : Fits columns values) : Fits (c :: columns) (n :: values) := by
  refine ⟨congrArg (· + 1) h.1, fun p hp => ?_⟩
  rw [List.zip_cons_cons] at hp
  rcases List.mem_cons.mp hp with rfl | hp
  · exact hn
  · exact h.2 p hp

theorem Fits.cons_inv {c : Column × Nat} {columns : List (Column × Nat)} {values : List Nat}
    (h : Fits (c :: columns) values) : ∃ n rest, values = n :: rest ∧ n < 256 ^ c.2 ∧
      Fits columns rest := by
  obtain ⟨hl, hv⟩ := h
  cases values with
  | nil => cases hl
  | cons n rest =>
    refine ⟨n, rest, rfl, hv (c, n) (by simp), ?_, ?_⟩
    · simpa using hl
    · intro p hp
      exact hv p (by rw [List.zip_cons_cons]; exact List.mem_cons_of_mem _ hp)

theorem length_encode {columns : List (Column × Nat)} {values : List Nat}
    (h : Fits columns values) : (encode columns values).length = Column.totalSize columns := by
  induction columns generalizing values with
  | nil => rfl
  | cons c columns ih =>
    obtain ⟨n, rest, rfl, _, hf⟩ := h.cons_inv
    unfold encode at *
    rw [List.zip_cons_cons, List.flatMap_cons, List.length_append, ih hf,
      LittleEndian.length_bytes]; rfl

theorem decode_encode {columns : List (Column × Nat)} {values : List Nat}
    (h : Fits columns values) :
    decode columns (encode columns values) = (columns.map (·.1)).zip values := by
  induction columns generalizing values with
  | nil => rfl
  | cons c columns ih =>
    obtain ⟨n, rest, rfl, hn, hf⟩ := h.cons_inv
    have he : encode (c :: columns) (n :: rest) = LittleEndian.bytes c.2 n ++ encode columns rest :=
      rfl
    have hl := LittleEndian.length_bytes c.2 n
    rw [he, decode, List.take_left' hl, List.drop_left' hl,
      LittleEndian.value_bytes (LittleEndian.bound_eq c.2 ▸ hn), ih hf]
    rfl

end Row

/-! ## All rows of a table -/

theorem Block.Holds.chunk {α : Type} {b : Block} {offset size : Nat} {f : α → List UInt8}
    {as : List α}
    (h : b.Holds offset (as.flatMap f)) (hf : ∀ a ∈ as, (f a).length = size) {i : Nat} {a : α}
    (ha : as[i]? = some a) : b.Holds (offset + i * size) (f a) := by
  induction as generalizing offset i with
  | nil => cases ha
  | cons a' as ih =>
    rw [List.flatMap_cons, Block.holds_append, hf a' (List.mem_cons_self ..)] at h
    cases i with
    | zero =>
      rw [List.getElem?_cons_zero, Option.some.injEq] at ha
      subst ha
      rw [Nat.zero_mul, Nat.add_zero]; exact h.1
    | succ i =>
      have := ih h.2 (fun a ha => hf a (List.mem_cons_of_mem _ ha)) (by simpa using ha)
      rwa [Nat.add_assoc, Nat.add_comm size, ← Nat.succ_mul] at this

namespace TableView

/-- The stream holds exactly these rows at the place of the table. -/
structure IsWritten (v : TableView) (rows : List (List Nat)) : Prop where
  holds : v.stream.Holds v.offset (rows.flatMap (Row.encode v.columns))
  count : v.count = rows.length
  fits : ∀ values ∈ rows, Row.Fits v.columns values

def numbered (names : List Column) (rows : List (List Nat)) : List (Nat × Row) :=
  (rows.zipIdx 1).map fun p => (p.2, names.zip p.1)

theorem numbered_map {α : Type} (names : List Column) (f : α → List Nat) (as : List α) :
    numbered names (as.map f) = (as.zipIdx 1).map fun p => (p.2, names.zip (f p.1)) := by
  unfold numbered
  rw [List.zipIdx_map, List.map_map]; rfl

section
variable {v : TableView} {rows : List (List Nat)} (h : v.IsWritten rows)
include h

theorem IsWritten.length_row {values : List Nat} (hv : values ∈ rows) :
    (Row.encode v.columns values).length = v.rowSize := Row.length_encode (h.fits values hv)

theorem IsWritten.holds_row {i : Nat} {values : List Nat} (hv : rows[i]? = some values) :
    v.stream.Holds (v.position (i + 1)) (Row.encode v.columns values) :=
  h.holds.chunk (fun _ hr => h.length_row hr) hv

theorem IsWritten.row_eq {i : Nat} {values : List Nat} (hv : rows[i]? = some values) :
    v.row ((i + 1 : Nat) : Int) = .ok ((v.columns.map (·.1)).zip values) := by
  have hm := List.mem_of_getElem? hv
  have hi : i < rows.length := (List.getElem?_eq_some_iff.mp hv).1
  unfold TableView.row
  rw [if_pos ⟨by omega, by rw [h.count]; omega⟩, Int.toNat_natCast,
    (h.holds_row hv).read? (h.length_row hm)]
  exact congrArg Except.ok (Row.decode_encode (h.fits values hm))

theorem IsWritten.rowAt_eq {i : Nat} {values : List Nat} (hv : rows[i]? = some values) :
    v.rowAt (i + 1) = (v.columns.map (·.1)).zip values := by
  have hm := List.mem_of_getElem? hv
  unfold TableView.rowAt
  rw [← h.length_row hm, (h.holds_row hv).slice, Row.decode_encode (h.fits values hm)]

theorem IsWritten.rows_eq : v.rows = .ok (numbered (v.columns.map (·.1)) rows) := by
  unfold TableView.rows
  by_cases hz : v.count = 0
  · have : rows = [] := List.eq_nil_of_length_eq_zero (h.count ▸ hz)
    rw [if_pos hz, this]; rfl
  · have hfit := h.holds.le_size
    rw [length_flatMap_of_length fun _ hr => h.length_row hr, ← h.count] at hfit
    rw [if_neg hz, if_pos hfit]
    refine congrArg Except.ok (List.ext_getElem ?_ fun i hi hi' => ?_)
    · simp [numbered, h.count]
    · have hr : i < rows.length := by simpa [numbered] using hi'
      have hv : rows[i]? = some rows[i] := List.getElem?_eq_getElem hr
      simp only [numbered, List.getElem_map, List.getElem_range', List.getElem_zipIdx, Nat.one_mul]
      rw [Nat.add_comm 1 i, h.rowAt_eq hv]

end

end TableView

end DebugMetadata
