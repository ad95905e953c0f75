import DebugMetadata.Bytes.Block

/-!
# Blocks that grow

A block grows when bytes are put behind it. What is read from a block in full
is read from every block that it grows into, and a slice of the block grows
into the same slice of the larger one.
-/

namespace DebugMetadata

/-! ## Answers that stay -/

/-- `y` has the value of `x`, if `x` has one. -/
def Stays {ε α : Type} (x y : Except ε α) : Prop := ∀ v, x = .ok v → y = .ok v

def Kept {α : Type} (x y : Option α) : Prop := ∀ v, x = some v → y = some v

section
variable {ε α β : Type}

theorem Stays.refl (x : Except ε α) : Stays x x := fun _ h => h

theorem Stays.error (e : ε) (y : Except ε α) : Stays (.error e) y := by
  intro v h; cases h

theorem Stays.bind {x y : Except ε α} {f g : α → Except ε β} (h : Stays x y)
    (hf : ∀ a, Stays (f a) (g a)) : Stays (x >>= f) (y >>= g) := by
  intro v hv
  cases x with
  | error e => cases hv
  | ok a => rw [h a rfl]; exact hf a v hv

theorem Stays.map {x y : Except ε α} (f : α → β) (h : Stays x y) : Stays (x.map f) (y.map f) := by
  intro v hv
  cases x with
  | error e => cases hv
  | ok a => rw [h a rfl]; exact hv

theorem Kept.refl (x : Option α) : Kept x x := fun _ h => h

theorem Kept.bind {x y : Option α} {f g : α → Option β} (h : Kept x y)
    (hf : ∀ a, Kept (f a) (g a)) : Kept (x >>= f) (y >>= g) := by
  intro v hv
  obtain ⟨a, ha, hv⟩ := Option.bind_eq_some_iff.mp hv
  exact Option.bind_eq_some_iff.mpr ⟨a, h a ha, hf a v hv⟩

theorem Kept.map {x y : Option α} (f : α → β) (h : Kept x y) : Kept (x.map f) (y.map f) := by
  intro v hv
  obtain ⟨a, ha, hv⟩ := Option.map_eq_some_iff.mp hv
  exact Option.map_eq_some_iff.mpr ⟨a, h a ha, hv⟩

end

/-! ## Reads -/

namespace Block

def Grows (b c : Block) : Prop := ∃ more, c = b ++ more

theorem grows_append (b more : Block) : b.Grows (b ++ more) := ⟨more, rfl⟩

theorem grows_refl (b : Block) : b.Grows b := ⟨#[], by simp⟩

section
variable {b c : Block} (h : b.Grows c)
include h

theorem Grows.size_le : b.size ≤ c.size := by
  obtain ⟨more, rfl⟩ := h
  rw [Array.size_append]; omega

theorem Grows.read? (offset size : Nat) : Kept (b.read? offset size) (c.read? offset size) := by
  obtain ⟨more, rfl⟩ := h
  intro bs hb
  exact read?_append more hb

theorem Grows.number? (offset width : Nat) :
    Kept (b.number? offset width) (c.number? offset width) :=
  (h.read? offset width).map _

theorem Grows.slice (offset size : Nat) : (b.slice offset size).Grows (c.slice offset size) := by
  obtain ⟨more, rfl⟩ := h
  exact ⟨_, Array.extract_append⟩

theorem Grows.slice_eq {offset size : Nat} (fits : offset + size ≤ b.size) :
    c.slice offset size = b.slice offset size := by
  obtain ⟨more, rfl⟩ := h
  have he : more.extract (offset - b.size) (offset + size - b.size) = #[] :=
    Array.extract_empty_of_stop_le_start (by omega)
  rw [Block.slice, Block.slice, Array.extract_append, he, Array.append_empty]

theorem Grows.terminated? (i : Nat) : Kept (b.terminated? i) (c.terminated? i) := by
  obtain ⟨more, rfl⟩ := h
  intro bs hb
  rw [terminated?_eq] at hb ⊢
  split at hb
  · rename_i hz
    have hi : i ≤ b.toList.length := by
      rcases Nat.le_total i b.toList.length with hi | hi
      · exact hi
      · rw [List.drop_eq_nil_of_le hi] at hz; cases hz
    -- the zero byte stops the scan before the new bytes
    have hw : ((b.toList.drop i).takeWhile (· != 0)).length ≠ (b.toList.drop i).length := by
      intro hl
      have hp := List.takeWhile_prefix (l := b.toList.drop i) (· != 0)
      have ha := List.all_takeWhile (l := b.toList.drop i) (p := (· != 0))
      rw [hp.eq_of_length hl, List.all_eq_true] at ha
      simpa using ha 0 hz
    rw [Array.toList_append, List.drop_append_of_le_length hi, if_pos (List.mem_append_left _ hz),
      List.takeWhile_append, if_neg hw]
    exact hb
  · cases hb

end

end Block

end DebugMetadata
