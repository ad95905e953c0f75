import Mathlib.Data.List.Forall2
import DebugMetadata.FilePath

/-!
# Paths with either slash

Either slash separates the parts of a path. Two paths are the same with forward
slashes exactly if they differ in nothing but the choice of their slashes
(`forward_eq_forward_iff`).
-/

namespace DebugMetadata

namespace FilePath

open CodePoint (char)

theorem forward_forward (cs : List CodePoint) : forward (forward cs) = forward cs := by
  rw [forward, forward, List.map_map]
  apply List.map_congr_left
  intro c _
  by_cases hc : c = char '\\'
  · simp [hc]
  · simp [hc]

def IsSlash (c : CodePoint) : Prop := c = char '/' ∨ c = char '\\'

/-- Some slashes of one path are exchanged in the other one. -/
def Equivalent (cs ds : List CodePoint) : Prop :=
  List.Forall₂ (fun c d => c = d ∨ IsSlash c ∧ IsSlash d) cs ds

section
variable {cs ds suffix : List CodePoint}

theorem Equivalent.length_eq (h : Equivalent cs ds) : cs.length = ds.length :=
  List.Forall₂.length_eq h

theorem turned_eq_turned_iff {c d : CodePoint} :
    ((if c = char '\\' then char '/' else c) = if d = char '\\' then char '/' else d) ↔
      c = d ∨ IsSlash c ∧ IsSlash d := by
  unfold IsSlash
  by_cases hc : c = char '\\'
  · by_cases hd : d = char '\\'
    · simp [hc, hd]
    · simp [hc, hd, eq_comm]
  · by_cases hd : d = char '\\'
    · simp [hc, hd]
    · simp only [hc, hd, if_false, or_false]
      constructor
      · exact Or.inl
      · intro h
        obtain h | ⟨rfl, rfl⟩ := h
        · exact h
        · rfl

theorem forward_eq_forward_iff : forward cs = forward ds ↔ Equivalent cs ds := by
  rw [← List.forall₂_eq_eq_eq]
  simp only [forward, List.forall₂_map_left_iff, List.forall₂_map_right_iff,
    turned_eq_turned_iff, Equivalent]

theorem forward_eq_append_iff : forward ds = forward cs ++ suffix ↔
    ∃ file rest, ds = file ++ rest ∧ Equivalent file cs ∧ forward rest = suffix := by
  simp only [← forward_eq_forward_iff]
  exact List.map_eq_append_iff

theorem forward_prefix_iff :
    forward cs <+: forward ds ↔ ∃ file rest, ds = file ++ rest ∧ Equivalent file cs := by
  constructor
  · intro h
    obtain ⟨suffix, h⟩ := h
    obtain ⟨file, rest, hds, hfile, -⟩ := forward_eq_append_iff.mp h.symm
    exact ⟨file, rest, hds, hfile⟩
  · intro h
    obtain ⟨file, rest, hds, hfile⟩ := h
    exact ⟨forward rest, (forward_eq_append_iff.mpr ⟨file, rest, hds, hfile, rfl⟩).symm⟩

end

end FilePath

end DebugMetadata
