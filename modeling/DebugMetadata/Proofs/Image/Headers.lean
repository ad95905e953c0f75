import DebugMetadata.Proofs.Image.Written

/-!
# Headers one after the other

A file has a root exactly if it starts with the bytes of that root
(`Root.read?_eq_some_iff`). The headers behind it are told without a reader (`Starts`):
each starts where the padding of the one before it ends. Nothing is read of a padding,
so the last one may be cut short by the end of the file. Reading so many headers gives
those that the bytes start with, or fails because the bytes end too early
(`readFrom?_eq_some_iff`, `readFrom?_eq_none_iff`).
-/

namespace DebugMetadata

/-! ## Roots -/

theorem isMetadata_iff {file : Block} : isMetadata file = true ↔ file.Holds 0 signature := by
  unfold isMetadata
  rw [beq_iff_eq]
  rfl

theorem Root.read?_eq_some_iff {file : Block} {r : Root} :
    isMetadata file = true ∧ read? file = some r ↔
      r.Fits ∧ ∃ behind, file.toList = r.written ++ behind := by
  constructor
  · rintro ⟨hsignature, hr⟩
    simp only [read?, Option.bind_eq_bind, Option.bind_eq_some_iff, Block.number?_eq_some_iff] at hr
    obtain ⟨major, ⟨hmajor, h1⟩, minor, ⟨hminor, h2⟩, reserved, ⟨hreserved, h3⟩, length,
      ⟨hlength, h4⟩, version, h5, flags,
      ⟨hflags, h6⟩, count, ⟨hcount, h7⟩, hr⟩ := hr
    cases hr
    obtain rfl := Block.length_of_read? h5
    refine ⟨⟨hmajor, hminor, hreserved, hlength, hflags, hcount⟩, ?_⟩
    have hw : file.Holds 0 (Root.mk major minor reserved version flags count).written := by
      simp only [written, Block.holds_append, signature, List.length_append,
        LittleEndian.length_bytes, List.length_cons, List.length_nil, Nat.zero_add, Nat.reduceAdd]
      exact ⟨⟨⟨⟨⟨⟨⟨isMetadata_iff.mp hsignature, h1⟩, h2⟩, h3⟩, h4⟩, h5⟩, h6⟩, h7⟩
    obtain ⟨-, behind, hb⟩ := Block.holds_iff_prefix.mp hw
    exact ⟨behind, hb.symm⟩
  · rintro ⟨hf, behind, hb⟩
    have hw := Block.holds_of_prefix hb
    exact ⟨isMetadata_written hw, read?_written hw hf⟩

/-! ## Headers -/

namespace StreamHeader

/-- The bytes start with these headers, and after them comes the rest. The padding of
the last one may miss bytes, if nothing comes after it. -/
inductive Starts : List StreamHeader → List UInt8 → List UInt8 → Prop
  | nil (rest) : Starts [] rest rest
  | cons {h padding hs behind rest} (fits : h.Fits) (padded : h.IsPadding padding)
      (next : Starts hs behind rest) :
      Starts (h :: hs) (h.written padding ++ behind) rest
  | cut {h padding missing} (fits : h.Fits) (padded : h.IsPadding (padding ++ missing)) :
      Starts [h] (h.written padding) []

/-- No zero byte comes behind the eight bytes of an extent, or not even those are there. -/
def Unfinished (bs : List UInt8) : Prop := 0 ∉ bs.drop 8

/-- The bytes end before so many headers, each with the zero byte behind its name. -/
def EndsEarly (count : Nat) (bs : List UInt8) : Prop :=
  ∃ hs rest, hs.length < count ∧ Starts hs bs rest ∧ Unfinished rest

variable {file : Block} {position : Nat} {h : StreamHeader}

theorem written_append (xs ys : List UInt8) : h.written (xs ++ ys) = h.written xs ++ ys := by
  simp only [written, List.append_assoc]

theorem written_ne_nil (padding : List UInt8) : h.written padding ≠ [] := by
  simp [written]

theorem read?_eq_some_iff : read? file position = some h ↔
    h.Fits ∧ ∃ behind, file.toList.drop position = h.written behind := by
  constructor
  · intro hr
    simp only [read?, Option.bind_eq_bind, Option.bind_eq_some_iff, Block.number?_eq_some_iff,
      Block.terminated?_eq_some_iff] at hr
    obtain ⟨offset, ⟨hoffset, h1⟩, size, ⟨hsize, h2⟩, name, ⟨hname, h3⟩, hr⟩ := hr
    cases hr
    refine ⟨⟨hoffset, hsize, hname⟩, ?_⟩
    have hw : file.Holds position
        (LittleEndian.bytes 4 offset ++ LittleEndian.bytes 4 size ++ (name ++ [0])) := by
      rw [Block.holds_append, Block.holds_append, List.length_append, LittleEndian.length_bytes,
        LittleEndian.length_bytes]
      exact ⟨⟨h1, h2⟩, h3⟩
    obtain ⟨-, behind, hb⟩ := Block.holds_iff_prefix.mp hw
    exact ⟨behind, hb.symm⟩
  · rintro ⟨hf, behind, hb⟩
    have hl := congrArg List.length hb
    rw [length_written_eq, List.length_drop, Array.length_toList] at hl
    have hw : file.Holds position (h.written behind) :=
      Block.holds_iff_prefix.mpr ⟨by omega, hb ▸ List.prefix_rfl⟩
    exact read?_written hw hf

theorem read?_eq_none_iff :
    read? file position = none ↔ Unfinished (file.toList.drop position) := by
  constructor
  · intro hn hz
    rw [List.drop_drop] at hz
    have hl := List.length_pos_of_mem hz
    rw [List.length_drop, Array.length_toList] at hl
    obtain ⟨offset, hoffset⟩ :=
      Option.isSome_iff_exists.mp
        (Block.number?_isSome.mpr (show position + 4 ≤ file.size by omega))
    obtain ⟨size, hsize⟩ :=
      Option.isSome_iff_exists.mp
        (Block.number?_isSome.mpr (show position + 4 + 4 ≤ file.size by omega))
    rw [read?, hoffset, hsize, Block.terminated?_eq, if_pos hz] at hn
    cases hn
  · intro hu
    rw [Option.eq_none_iff_forall_ne_some]
    intro h hr
    obtain ⟨-, behind, hb⟩ := read?_eq_some_iff.mp hr
    have hd : (h.written behind).drop 8 = h.name ++ [0] ++ behind := by
      rw [written, List.append_assoc _ _ behind]
      exact List.drop_left' (by simp)
    rw [Unfinished, hb, hd] at hu
    exact hu (by simp)

theorem starts_of_entries {entries : List (StreamHeader × List UInt8)} {hs : List StreamHeader}
    {behind rest : List UInt8}
    (hf : ∀ e ∈ entries, e.1.Fits) (hp : ∀ e ∈ entries, e.1.IsPadding e.2)
    (next : Starts hs behind rest) :
    Starts (entries.map (·.1) ++ hs)
      ((entries.flatMap fun e => e.1.written e.2) ++ behind) rest := by
  induction entries with
  | nil => exact next
  | cons e entries ih =>
    rw [List.forall_mem_cons] at hf hp
    rw [List.map_cons, List.cons_append, List.flatMap_cons, List.append_assoc]
    exact .cons hf.1 hp.1 (ih hf.2 hp.2)

theorem Starts.of_nil {hs : List StreamHeader} {rest : List UInt8} (h : Starts hs [] rest) :
    hs = [] ∧ rest = [] := by
  generalize he : [] = bs at h
  cases h with
  | nil => exact ⟨rfl, rfl⟩
  | cons => exact absurd (List.append_eq_nil_iff.mp he.symm).1 (written_ne_nil _)
  | cut => exact absurd he.symm (written_ne_nil _)

theorem isPadding_or (h : StreamHeader) (behind : List UInt8) :
    (∃ padding rest, behind = padding ++ rest ∧ h.IsPadding padding) ∨
      ∃ missing, h.IsPadding (behind ++ missing) := by
  let size := 3 - h.name.length % 4
  by_cases hle : size ≤ behind.length
  · refine .inl ⟨_, _, (List.take_append_drop size behind).symm, ?_⟩
    rw [isPadding_iff, List.length_take]
    omega
  · refine .inr ⟨List.replicate (size - behind.length) 0, ?_⟩
    rw [isPadding_iff, List.length_append, List.length_replicate]
    omega

theorem drop_size_written {padding missing : List UInt8} (hp : h.IsPadding (padding ++ missing)) :
    (h.written padding).drop h.size = [] := by
  apply List.drop_eq_nil_of_le
  rw [← length_written hp, written_append, List.length_append]
  omega

theorem starts_cons_iff {hs : List StreamHeader} {rest : List UInt8} :
    Starts (h :: hs) (file.toList.drop position) rest ↔
      read? file position = some h ∧ Starts hs (file.toList.drop (position + h.size)) rest := by
  rw [read?_eq_some_iff, ← List.drop_drop]
  generalize file.toList.drop position = bs
  constructor
  · intro hst
    cases hst with
    | cons fits padded next =>
      refine ⟨⟨fits, _, (written_append ..).symm⟩, ?_⟩
      rwa [List.drop_left' (length_written padded)]
    | cut fits padded =>
      refine ⟨⟨fits, _, rfl⟩, ?_⟩
      rw [drop_size_written padded]
      exact .nil []
  · rintro ⟨⟨fits, behind, rfl⟩, next⟩
    rcases isPadding_or h behind with ⟨padding, behind, rfl, padded⟩ | ⟨missing, padded⟩
    · rw [written_append, List.drop_left' (length_written padded)] at next
      rw [written_append]
      exact .cons fits padded next
    · -- behind a padding that is cut short there are no bytes, so no headers either
      rw [drop_size_written padded] at next
      obtain ⟨rfl, rfl⟩ := next.of_nil
      exact .cut fits padded

theorem readFrom?_eq_some_iff {n : Nat} {found result : List StreamHeader} :
    readFrom? file n position found = some result ↔
      ∃ hs rest, hs.length = n ∧ Starts hs (file.toList.drop position) rest ∧
        found.reverse ++ hs = result := by
  induction n generalizing position found with
  | zero =>
    rw [readFrom?, Option.some.injEq]
    constructor
    · intro he
      exact ⟨[], _, rfl, .nil _, by rw [List.append_nil, he]⟩
    · rintro ⟨hs, rest, hl, -, he⟩
      rw [List.length_eq_zero_iff.mp hl, List.append_nil] at he
      exact he
  | succ n ih =>
    rw [readFrom?]
    constructor
    · intro hr
      split at hr
      · cases hr
      next h hread =>
      obtain ⟨hs, rest, rfl, hst, rfl⟩ := ih.mp hr
      exact ⟨h :: hs, rest, rfl, starts_cons_iff.mpr ⟨hread, hst⟩, by simp⟩
    · rintro ⟨hs, rest, hl, hst, rfl⟩
      obtain ⟨h, hs, rfl⟩ := List.exists_cons_of_length_eq_add_one hl
      obtain ⟨hread, hst⟩ := starts_cons_iff.mp hst
      rw [hread]
      exact ih.mpr ⟨hs, rest, Nat.succ.inj hl, hst, by simp⟩

theorem readFrom?_eq_none_iff {n : Nat} {found : List StreamHeader} :
    readFrom? file n position found = none ↔ EndsEarly n (file.toList.drop position) := by
  induction n generalizing position found with
  | zero =>
    constructor
    · intro hr
      cases hr
    · rintro ⟨hs, rest, hlt, -⟩
      exact absurd hlt (Nat.not_lt_zero _)
  | succ n ih =>
    rw [readFrom?]
    constructor
    · intro hr
      split at hr
      · next hread => exact ⟨[], _, Nat.succ_pos n, .nil _, read?_eq_none_iff.mp hread⟩
      · next h hread =>
        obtain ⟨hs, rest, hlt, hst, hu⟩ := ih.mp hr
        exact ⟨h :: hs, rest, Nat.succ_lt_succ hlt, starts_cons_iff.mpr ⟨hread, hst⟩, hu⟩
    · rintro ⟨hs, rest, hlt, hst, hu⟩
      cases hs with
      | nil =>
        cases hst
        rw [read?_eq_none_iff.mpr hu]
      | cons h hs =>
        obtain ⟨hread, hst⟩ := starts_cons_iff.mp hst
        rw [hread]
        exact ih.mpr ⟨hs, rest, Nat.lt_of_succ_lt_succ hlt, hst, hu⟩

end StreamHeader

end DebugMetadata
