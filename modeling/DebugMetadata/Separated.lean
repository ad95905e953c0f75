/-!
# Separated lists

A list is cut at a separator into the parts between. There is one part more than
there are separators. Cutting and joining undo each other (`joined_parts`,
`parts_joined`).
-/

namespace DebugMetadata

namespace Separated

variable {α : Type} [DecidableEq α]

/-- Puts one element before parts: a separator starts a part, anything else goes
to the front of the first one. -/
def extend (sep a : α) (parts : List (List α)) : List (List α) :=
  if a = sep then [] :: parts
  else
    match parts with
    | [] => [[a]]
    | part :: parts => (a :: part) :: parts

def parts (sep : α) (as : List α) : List (List α) := as.foldr (extend sep) [[]]

def joined (sep : α) (ps : List (List α)) : List α := [sep].intercalate ps

@[simp] theorem parts_nil (sep : α) : parts sep [] = [[]] := rfl

theorem parts_cons (sep a : α) (as : List α) :
    parts sep (a :: as) = extend sep a (parts sep as) := rfl

theorem extend_self (sep : α) (ps : List (List α)) : extend sep sep ps = [] :: ps := by
  simp [extend]

theorem extend_cons {sep a : α} (h : a ≠ sep) (part : List α) (ps : List (List α)) :
    extend sep a (part :: ps) = (a :: part) :: ps := by
  simp [extend, h]

theorem parts_ne_nil (sep : α) (as : List α) : parts sep as ≠ [] := by
  induction as with
  | nil => simp
  | cons a as ih =>
    obtain ⟨part, ps, hp⟩ := List.exists_cons_of_ne_nil ih
    rw [parts_cons, hp]
    by_cases h : a = sep
    · rw [h, extend_self]
      simp
    · rw [extend_cons h]
      simp

theorem joined_parts (sep : α) (as : List α) : joined sep (parts sep as) = as := by
  induction as with
  | nil => rfl
  | cons a as ih =>
    obtain ⟨part, ps, hp⟩ := List.exists_cons_of_ne_nil (parts_ne_nil sep as)
    rw [hp] at ih
    rw [parts_cons, hp]
    by_cases h : a = sep
    · rw [h, extend_self]
      simpa [joined] using ih
    · rw [extend_cons h]
      cases ps with
      | nil => simpa [joined] using ih
      | cons q qs => simpa [joined] using ih

theorem parts_append_of_not_mem {sep : α} {before as part : List α} {ps : List (List α)}
    (h : sep ∉ before)
    (hp : parts sep as = part :: ps) : parts sep (before ++ as) = (before ++ part) :: ps := by
  induction before with
  | nil => exact hp
  | cons a before ih =>
    rw [List.mem_cons, not_or] at h
    rw [List.cons_append, parts_cons, ih h.2, extend_cons (Ne.symm h.1), List.cons_append]

theorem parts_append {sep : α} {part : List α} (h : sep ∉ part) (as : List α) :
    parts sep (part ++ sep :: as) = part :: parts sep as := by
  have hp : parts sep (sep :: as) = [] :: parts sep as := by rw [parts_cons, extend_self]
  rw [parts_append_of_not_mem h hp, List.append_nil]

theorem parts_of_not_mem {sep : α} {part : List α} (h : sep ∉ part) : parts sep part = [part] := by
  have hp := parts_append_of_not_mem h (parts_nil sep)
  rw [List.append_nil] at hp
  exact hp

theorem not_mem_of_mem_parts {sep : α} {as part : List α} (h : part ∈ parts sep as) :
    sep ∉ part := by
  induction as generalizing part with
  | nil =>
    rw [parts_nil, List.mem_singleton] at h
    rw [h]
    exact List.not_mem_nil
  | cons a as ih =>
    obtain ⟨first, ps, hp⟩ := List.exists_cons_of_ne_nil (parts_ne_nil sep as)
    rw [hp] at ih
    rw [parts_cons, hp] at h
    by_cases ha : a = sep
    · rw [ha, extend_self, List.mem_cons] at h
      cases h with
      | inl h => rw [h]; exact List.not_mem_nil
      | inr h => exact ih h
    · rw [extend_cons ha, List.mem_cons] at h
      cases h with
      | inl h =>
        rw [h, List.mem_cons, not_or]
        exact ⟨Ne.symm ha, ih (List.mem_cons_self ..)⟩
      | inr h => exact ih (List.mem_cons_of_mem _ h)

omit [DecidableEq α] in
theorem joined_cons (sep : α) (part : List α) {ps : List (List α)} (h : ps ≠ []) :
    joined sep (part :: ps) = part ++ sep :: joined sep ps := by
  obtain ⟨q, qs, rfl⟩ := List.exists_cons_of_ne_nil h
  simp [joined]

theorem parts_joined {sep : α} {ps : List (List α)} (hne : ps ≠ []) (h : ∀ p ∈ ps, sep ∉ p) :
    parts sep (joined sep ps) = ps := by
  induction ps with
  | nil => exact absurd rfl hne
  | cons p ps ih =>
    rw [List.forall_mem_cons] at h
    by_cases hps : ps = []
    · rw [hps]
      simpa [joined] using parts_of_not_mem h.1
    · rw [joined_cons sep p hps, parts_append h.1, ih hps h.2]

omit [DecidableEq α] in
/-- A separator behind each part instead of between them is one more at the end. -/
theorem flatMap_append_sep (sep : α) {ps : List (List α)} (hne : ps ≠ []) :
    ps.flatMap (· ++ [sep]) = joined sep ps ++ [sep] := by
  induction ps with
  | nil => exact absurd rfl hne
  | cons p ps ih =>
    by_cases hps : ps = []
    · simp [hps, joined]
    · rw [List.flatMap_cons, ih hps, joined_cons sep p hps]
      simp

/-- Elements that are written out are cut where they were, as long as only the
separator is written with a separator. -/
theorem parts_flatMap {β : Type} [DecidableEq β] {f : β → List α} {sep : α} {mark : β}
    (hmark : f mark = [sep])
    (hf : ∀ b, b ≠ mark → sep ∉ f b) (bs : List β) :
    parts sep (bs.flatMap f) = (parts mark bs).map (List.flatMap f) := by
  induction bs with
  | nil => rfl
  | cons b bs ih =>
    obtain ⟨part, ps, hp⟩ := List.exists_cons_of_ne_nil (parts_ne_nil mark bs)
    rw [List.flatMap_cons]
    by_cases h : b = mark
    · rw [h, hmark, List.singleton_append, parts_cons, extend_self, ih, parts_cons, extend_self,
        List.map_cons, List.flatMap_nil]
    · rw [hp, List.map_cons] at ih
      rw [parts_append_of_not_mem (hf b h) ih, parts_cons, hp, extend_cons h, List.map_cons,
        List.flatMap_cons]

end Separated

end DebugMetadata
