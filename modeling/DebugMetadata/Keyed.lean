/-!
# Keyed lists

Lists of keyed values in the order in which the keys came up. A key that comes
up again keeps its place and takes the new value.
-/

namespace DebugMetadata

namespace Keyed

variable {κ α : Type} [DecidableEq κ]

/-- Gives a key a value. A new key goes to the end. -/
def insert (k : κ) (a : α) : List (κ × α) → List (κ × α)
  | [] => [(k, a)]
  | (k', a') :: rest => if k' = k then (k, a) :: rest else (k', a') :: insert k a rest

/-- What is left when each key takes its last value at its first place. -/
def effective (entries : List (κ × α)) : List (κ × α) :=
  entries.foldl (fun found (k, a) => insert k a found) []

def find? (k : κ) : List (κ × α) → Option α
  | [] => none
  | (k', a) :: rest => if k' = k then some a else find? k rest

theorem find?_insert (k j : κ) (a : α) (l : List (κ × α)) :
    find? j (insert k a l) = if k = j then some a else find? j l := by
  induction l with
  | nil => rfl
  | cons e l ih =>
    obtain ⟨k', a'⟩ := e
    rw [insert]
    split
    · next h => subst h; simp only [find?]; split <;> rfl
    · next h =>
      simp only [find?, ih]
      split <;> split <;> simp_all

theorem keys_insert (k : κ) (a : α) (l : List (κ × α)) :
    (insert k a l).map (·.1) = if k ∈ l.map (·.1) then l.map (·.1) else l.map (·.1) ++ [k] := by
  induction l with
  | nil => simp [insert]
  | cons e l ih =>
    obtain ⟨k', a'⟩ := e
    rw [insert]
    split
    · next h => simp [h]
    · next h =>
      rw [List.map_cons, ih]
      split <;> simp_all [Ne.symm h]

end Keyed

end DebugMetadata
