import Mathlib.Data.List.Induction
import DebugMetadata.Keyed

/-!
# Look-ups in keyed lists

When each key takes its last value at its first place, the keys come in the order
in which they came up first (`map_fst_effective`) and have the values that they
had last (`mem_effective_iff`).
-/

namespace DebugMetadata

namespace Keyed

variable {κ α : Type} [DecidableEq κ]

theorem find?_eq_none {k : κ} {l : List (κ × α)} (h : k ∉ l.map (·.1)) : find? k l = none := by
  induction l with
  | nil => rfl
  | cons e l ih =>
    rw [List.map_cons, List.mem_cons, not_or] at h
    rw [find?, if_neg (Ne.symm h.1), ih h.2]

theorem find?_of_mem {k : κ} {a : α} {l : List (κ × α)} (hn : (l.map (·.1)).Nodup)
    (h : (k, a) ∈ l) : find? k l = some a := by
  induction l with
  | nil => cases h
  | cons e l ih =>
    rw [List.map_cons, List.nodup_cons] at hn
    rw [find?]
    rcases List.mem_cons.mp h with he | hm
    · subst he; rw [if_pos rfl]
    · have hne : e.1 ≠ k := fun he => hn.1 (he ▸ List.mem_map.mpr ⟨_, hm, rfl⟩)
      rw [if_neg hne]; exact ih hn.2 hm

theorem insert_of_not_mem {k : κ} (a : α) {l : List (κ × α)} (h : k ∉ l.map (·.1)) :
    insert k a l = l ++ [(k, a)] := by
  induction l with
  | nil => rfl
  | cons e l ih =>
    rw [List.map_cons, List.mem_cons, not_or] at h
    rw [insert, if_neg (Ne.symm h.1), ih h.2, List.cons_append]

theorem effective_of_nodup {l : List (κ × α)} (h : (l.map (·.1)).Nodup) : effective l = l := by
  suffices hs : ∀ found : List (κ × α), ((found ++ l).map (·.1)).Nodup →
      l.foldl (fun found e => insert e.1 e.2 found) found = found ++ l from hs [] h
  clear h
  induction l with
  | nil => intro found _; simp
  | cons e l ih =>
    intro found hn
    have he : e.1 ∉ found.map (·.1) := by
      rw [List.map_append, List.map_cons, List.nodup_append] at hn
      exact fun hm => hn.2.2 _ hm _ (List.mem_cons_self ..) rfl
    rw [List.foldl_cons, insert_of_not_mem _ he, ih _ (by simpa using hn)]
    simp

theorem find?_filterMap (f : κ → Option α) (k : κ) (keys : List κ) :
    find? k (keys.filterMap fun j => (f j).map (j, ·)) = if k ∈ keys then f k else none := by
  induction keys with
  | nil => rfl
  | cons j keys ih =>
    rw [List.filterMap_cons]
    cases hj : f j with
    | none =>
      simp only [Option.map_none, ih, List.mem_cons]
      by_cases h : k = j
      · simp [h, hj]
      · simp [h]
    | some a =>
      simp only [Option.map_some, find?, ih, List.mem_cons]
      by_cases h : k = j
      · simp [h, hj]
      · simp [h, Ne.symm h]

/-! ## Keys that come up again -/

/-- The value that a key has where it comes up last. -/
def IsLast (k : κ) (a : α) (l : List (κ × α)) : Prop :=
  ∃ before behind, l = before ++ (k, a) :: behind ∧ k ∉ behind.map (·.1)

theorem effective_concat (l : List (κ × α)) (k : κ) (a : α) :
    effective (l ++ [(k, a)]) = insert k a (effective l) := by
  rw [effective, List.foldl_append]; rfl

theorem isLast_concat {k j : κ} {a b : α} {l : List (κ × α)} :
    IsLast k a (l ++ [(j, b)]) ↔ if j = k then b = a else IsLast k a l := by
  constructor
  · rintro ⟨before, behind, hl, hk⟩
    rcases List.eq_nil_or_concat behind with rfl | ⟨behind, e, rfl⟩
    · obtain ⟨-, he⟩ := List.append_inj' hl rfl
      obtain ⟨rfl, rfl⟩ := Prod.mk.inj (List.cons.inj he).1
      rw [if_pos rfl]
    · rw [List.concat_eq_append, ← List.cons_append, ← List.append_assoc] at hl
      obtain ⟨rfl, he⟩ := List.append_inj' hl rfl
      obtain rfl := (List.cons.inj he).1
      rw [List.concat_eq_append, List.map_append, List.mem_append, not_or] at hk
      rw [if_neg (fun h => hk.2 (by simp [h]))]
      exact ⟨before, behind, rfl, hk.1⟩
  · split
    · next h =>
      rintro rfl
      exact ⟨l, [], by rw [h], List.not_mem_nil⟩
    · next h =>
      rintro ⟨before, behind, rfl, hk⟩
      exact ⟨before, behind ++ [(j, b)], by simp, by simpa [Ne.symm h] using hk⟩

theorem map_fst_effective (l : List (κ × α)) :
    (effective l).map (·.1) = (l.map (·.1)).eraseDups := by
  induction l using List.reverseRecOn with
  | nil => rfl
  | append_singleton l e ih =>
    obtain ⟨k, a⟩ := e
    rw [effective_concat, keys_insert, ih, List.map_append, List.eraseDups_append]
    by_cases hk : k ∈ l.map (·.1)
    · simp [List.mem_eraseDups, hk, List.removeAll]
    · simp [List.mem_eraseDups, hk, List.removeAll, List.eraseDups_cons]

theorem nodup_effective (l : List (κ × α)) : ((effective l).map (·.1)).Nodup := by
  induction l using List.reverseRecOn with
  | nil => exact List.nodup_nil
  | append_singleton l e ih =>
    obtain ⟨k, a⟩ := e
    rw [effective_concat, keys_insert]
    split
    · exact ih
    · next hk =>
      rw [List.nodup_append]
      refine ⟨ih, List.pairwise_singleton _ k, ?_⟩
      rintro j hj _ hk' rfl
      exact hk (List.mem_singleton.mp hk' ▸ hj)

theorem find?_effective_eq_some_iff {k : κ} {a : α} {l : List (κ × α)} :
    find? k (effective l) = some a ↔ IsLast k a l := by
  induction l using List.reverseRecOn with
  | nil => simp [effective, find?, IsLast]
  | append_singleton l e ih =>
    obtain ⟨j, b⟩ := e
    rw [effective_concat, find?_insert, isLast_concat, ← ih]
    split <;> simp

theorem mem_of_find? {k : κ} {a : α} {l : List (κ × α)} (h : find? k l = some a) : (k, a) ∈ l := by
  induction l with
  | nil => cases h
  | cons e l ih =>
    rw [find?] at h
    split at h
    · next hk => cases h; rw [← hk]; exact List.mem_cons_self ..
    · exact List.mem_cons_of_mem _ (ih h)

theorem mem_effective_iff {k : κ} {a : α} {l : List (κ × α)} :
    (k, a) ∈ effective l ↔ IsLast k a l := by
  rw [← find?_effective_eq_some_iff]
  exact ⟨find?_of_mem (nodup_effective l), mem_of_find?⟩

end Keyed

end DebugMetadata
