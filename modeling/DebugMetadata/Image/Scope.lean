import DebugMetadata.Image.Basic

/-!
# Local scopes and variables

The variables of a scope are a run of rows: from the row that the scope names up
to the row that the next scope names, or to the end of the table for the last
scope. The variables of a method are the runs of its scopes, one after the other.
-/

namespace DebugMetadata

/-- The rows from `first` on that come before `stop`. -/
structure Run where
  first : Nat
  stop : Nat
  deriving DecidableEq, Repr

namespace Run

def length (r : Run) : Nat := r.stop - r.first

def rows (r : Run) : List Nat := List.range' r.first r.length

def allRows (rs : List Run) : List Nat := rs.flatMap rows

def firstRows : (n : Nat) → List Run → List Nat
  | _, [] => []
  | n, r :: rs => List.range' r.first (min n r.length) ++ firstRows (n - r.length) rs

/-- At most so many rows of runs, if there is a limit. Whoever takes none does not
look for the runs. -/
def upTo (limit : Option Nat) (runs : Except Error (List Run)) : Except Error (List Nat) :=
  match limit with
  | none => runs.map allRows
  | some 0 => .ok []
  | some n => runs.map (firstRows n)

def nth? : List Run → (i : Nat) → Option Nat
  | [], _ => none
  | r :: rs, i => if i < r.length then some (r.first + i) else nth? rs (i - r.length)

theorem take_rows (n : Nat) (r : Run) : r.rows.take n = List.range' r.first (min n r.length) := by
  rcases Nat.le_total n r.length with h | h
  · rw [rows, List.take_range'_of_length_ge h, Nat.min_eq_left h]
  · rw [rows, List.take_range'_of_length_le h, Nat.min_eq_right h]

theorem firstRows_eq_take (n : Nat) (rs : List Run) : firstRows n rs = (allRows rs).take n := by
  induction rs generalizing n with
  | nil => simp [firstRows, allRows]
  | cons r rs ih =>
    rw [firstRows, ih, ← take_rows, allRows, allRows, List.flatMap_cons, List.take_append]
    simp [rows]

theorem nth?_eq_getElem? (rs : List Run) (i : Nat) : nth? rs i = (allRows rs)[i]? := by
  induction rs generalizing i with
  | nil => simp [nth?, allRows]
  | cons r rs ih =>
    simp only [nth?, allRows, List.flatMap_cons] at *
    by_cases h : i < r.length
    · rw [if_pos h, List.getElem?_append_left (by simpa [rows] using h), rows,
        List.getElem?_range' h, Nat.one_mul]
    · rw [if_neg h, List.getElem?_append_right (by simpa [rows] using Nat.le_of_not_lt h), ih]
      simp [rows]

end Run

structure LocalVariable where
  handle : Handle
  attributes : Nat
  index : Nat
  name : String
  deriving DecidableEq, Repr

namespace Image

variable (m : Image)

def scopes (method : Handle) : Except Error (List Nat) := do
  let rows ← (m.view .localScope).rows
  .ok ((rows.filter fun (_, row) => (row.get .method : Int) = method.row).map (·.1))

/-- The variables of a scope. Only the row of the handle is looked at. -/
def variableRun (scope : Handle) : Except Error Run := do
  let scopes := m.view .localScope
  let row ← scopes.row scope.row
  if scope.row < scopes.count then
    let next ← scopes.row (scope.row + 1)
    .ok ⟨row.get .variableList, next.get .variableList⟩
  else .ok ⟨row.get .variableList, (m.view .localVariable).count + 1⟩

def variableRuns (method : Handle) : Except Error (List Run) := do
  (← m.scopes method).mapM fun i => m.variableRun (Handle.ofRow .localScope i)

def localVariable (h : Handle) : Except Error LocalVariable := do
  let row ← (m.view .localVariable).row h.row
  let name ← Heap.string m.strings (row.get .name)
  .ok ⟨h, row.get .attributes, row.get .index, name⟩

end Image

end DebugMetadata
