import DebugMetadata.Proofs.Failure
import DebugMetadata.Proofs.Image.Heap
import DebugMetadata.Proofs.Image.Isolation

/-!
# Exact look-ups

A heap may hold any bytes and an index may point anywhere into them. What a look-up
gives is told by the bytes from the index on: a text with the zero byte behind it, a
blob behind its length, sixteen bytes of a GUID (`lookups_exact`). Nothing else is an
answer, and what is no answer is a failure.
-/

namespace DebugMetadata

namespace Image

/-! ## Heaps of an opened file -/

section
variable {file : Block} {m : Image}

theorem lookUp_eq_ok_iff {α : Type} {f : Block → Nat → Except Error α} {heap : Block}
    {name : String} {position : Int}
    {i : Nat} {a : α} (hheap : heap = (m.directory.stream? file name).getD #[])
    (h : f #[] i = .ok a → Heap.takes false position = true) :
    (do f heap (← Heap.index (m.hasStream name) position i)) = .ok a ↔ f heap i = .ok a := by
  rw [bind_eq_ok_iff]
  constructor
  · rintro ⟨j, hj, ha⟩
    have hij := Heap.index_eq_ok hj
    rw [Nat.cast_inj] at hij
    rwa [hij]
  · intro ha
    have htakes : Heap.takes (m.hasStream name) position = true := by
      unfold hasStream
      unfold Directory.stream? at hheap
      cases hfind : Keyed.find? name m.directory with
      | some e => rfl
      | none =>
        rw [hfind, Option.map_none, Option.getD_none] at hheap
        exact h (hheap ▸ ha)
    refine ⟨i, ?_, ha⟩
    rw [Heap.index, if_pos htakes, if_neg (by omega), Int.toNat_natCast]

variable (h : read file = .ok m) (i : Nat)
include h

theorem string_eq_ok_iff {s : String} : m.string i = .ok s ↔ Heap.HasText m.strings i s := by
  obtain ⟨pdb, ho⟩ := opened_of_read h
  rw [← Heap.string_eq_ok_iff]
  apply lookUp_eq_ok_iff ho.strings
  intro hs
  obtain ⟨-, hp⟩ := Heap.string_eq_ok_iff.mp hs
  simp at hp

theorem blob_eq_ok_iff {payload : List UInt8} :
    m.blob i = .ok payload ↔ if i = 0 then payload = [] else Heap.HasBlob m.blobs i payload := by
  obtain ⟨pdb, ho⟩ := opened_of_read h
  refine (lookUp_eq_ok_iff ho.blobs ?_).trans ?_
  · intro hb
    by_cases hi : i = 0
    · rw [hi]; decide
    · obtain ⟨w, -, hp⟩ := (Heap.blob_eq_ok_iff hi).mp hb
      cases w <;> simp [Compressed.write] at hp
  · by_cases hi : i = 0
    · rw [hi, if_pos rfl, Heap.blob, if_pos rfl, Except.ok.injEq, eq_comm]
    · rw [if_neg hi, Heap.blob_eq_ok_iff hi]

theorem guid_eq_ok_iff {o : Option Guid} :
    m.guid i = .ok o ↔ if i = 0 then o = none else ∃ g, o = some g ∧ Heap.HasGuid m.guids i g := by
  obtain ⟨pdb, ho⟩ := opened_of_read h
  refine (lookUp_eq_ok_iff ho.guids ?_).trans ?_
  · intro hg
    by_cases hi : i = 0
    · rw [hi]; decide
    · obtain ⟨g, -, hle, -⟩ := (Heap.guid_eq_ok_iff hi).mp hg
      rw [Array.size_empty] at hle
      omega
  · by_cases hi : i = 0
    · rw [hi, if_pos rfl, Heap.guid, if_pos rfl, Except.ok.injEq, eq_comm]
    · rw [if_neg hi, Heap.guid_eq_ok_iff hi]

theorem guid_eq_some_iff {g : Guid} :
    m.guid i = .ok (some g) ↔ i ≠ 0 ∧ Heap.HasGuid m.guids i g := by
  rw [guid_eq_ok_iff h]
  by_cases hi : i = 0
  · simp [hi]
  · simp [hi]

/-- A text, a blob or a GUID is the answer exactly if it stands at the index, whatever
else the heap holds. A GUID stands at an index exactly if the heap goes on so far, and
different bytes are those of different GUIDs. Index zero gives no GUID and the empty
blob. If there is no answer, the metadata is at fault, unless a heap that the file does
not have is asked for a position of more than 64 bits. -/
theorem lookups_exact :
    (∀ s, m.string i = .ok s ↔ Heap.HasText m.strings i s) ∧
    (∀ payload, m.blob i = .ok payload ↔
      if i = 0 then payload = [] else Heap.HasBlob m.blobs i payload) ∧
    (∀ o, m.guid i = .ok o ↔ if i = 0 then o = none else ∃ g, o = some g ∧ Heap.HasGuid m.guids i g) ∧
    (i ≠ 0 → ((∃ g, m.guid i = .ok (some g)) ↔ 16 * i ≤ m.guids.size)) ∧
    (∀ (j : Nat) g, m.guid i = .ok (some g) → m.guid j = .ok (some g) →
      Heap.entry m.guids i = Heap.entry m.guids j) ∧
    FailsUnless ((Question.string i).Huge m) (m.string i) ∧
    FailsUnless ((Question.blob i).Huge m) (m.blob i) ∧
    FailsUnless ((Question.guid i).Huge m) (m.guid i) := by
  refine ⟨fun s => string_eq_ok_iff h i, fun payload => blob_eq_ok_iff h i,
    fun o => guid_eq_ok_iff h i, ?_, ?_,
    m.ask_failsUnless (.string i) (by simp [Question.Negative]),
    m.ask_failsUnless (.blob i) (by simp [Question.Negative]),
    m.ask_failsUnless (.guid i) (by simp [Question.Negative])⟩
  · intro hi
    simp only [guid_eq_some_iff h, hi, ne_eq, not_false_eq_true, true_and]
    exact Heap.exists_hasGuid_iff hi
  · intro j g hg hg'
    obtain ⟨-, -, hentry⟩ := (guid_eq_some_iff h i).mp hg
    obtain ⟨-, -, hentry'⟩ := (guid_eq_some_iff h j).mp hg'
    rw [← hentry, ← hentry']

end

def heapsFile : Block := (Container.written ⟨1, 1, padded [0x50],
  [("#Pdb", (DebugStream.mk (List.replicate 20 7) 0 0 []).written),
    ("#~", (TablesHeader.mk 0 2 0 0 1 0 0 []).written 0),
    ("#Strings", [0, 0x68, 0xC3, 0xA9, 0, 0x61, 0x62, 0x63]),
    ("#Blob", [0, 0x80, 2, 0xC0, 0, 0, 1, 0xAA]),
    ("#GUID", List.replicate 24 5)]⟩).toArray

theorem opens_heapsFile :
    ∃ m, read heapsFile = .ok m ∧ m.strings = #[0, 0x68, 0xC3, 0xA9, 0, 0x61, 0x62, 0x63] ∧
    m.blobs = #[0, 0x80, 2, 0xC0, 0, 0, 1, 0xAA] ∧ m.guids.size = 24 ∧
      m.hasStream "#GUID" = true := by
  have h : ((read heapsFile).toOption.any fun m => m.strings == #[0, 0x68, 0xC3, 0xA9, 0, 0x61, 0x62, 0x63] &&
      m.blobs == #[0, 0x80, 2, 0xC0, 0, 0, 1, 0xAA] && m.guids.size == 24 && m.hasStream "#GUID") =
        true := by
    decide +kernel
  obtain ⟨m, hm, h⟩ := exists_ok_of_any h
  simp only [Bool.and_eq_true, beq_iff_eq] at h
  obtain ⟨⟨⟨hs, hb⟩, hg⟩, ht⟩ := h
  exact ⟨m, hm, hs, hb, hg, ht⟩

/-- A text from its middle on and one without an end, blobs whose lengths are wider than
they need to be and overlap, and a GUID of which half is missing. -/
theorem heapsFile_lookups : ∃ m, read heapsFile = .ok m ∧
    m.string (2 : Nat) = .ok "é" ∧ m.string (5 : Nat) ≠ .ok "abc" ∧
    m.blob (1 : Nat) = .ok [0xC0, 0] ∧ m.blob (3 : Nat) = .ok [0xAA] ∧
    (∃ g, m.guid (1 : Nat) = .ok (some g)) ∧
    ∃ e, m.guid (2 : Nat) = .error e ∧ e.kind = .invalidMetadata := by
  obtain ⟨m, hm, hs, hb, hg, ht⟩ := opens_heapsFile
  obtain ⟨hmiddle, -⟩ := lookups_exact hm 2
  obtain ⟨hend, -⟩ := lookups_exact hm 5
  obtain ⟨-, htwo, -, hfirst, -⟩ := lookups_exact hm 1
  obtain ⟨-, hfour, -⟩ := lookups_exact hm 3
  obtain ⟨-, -, hpartial, hsecond, -, -, -, hfails⟩ := lookups_exact hm 2
  refine ⟨m, hm, (hmiddle _).mpr ?_, ?_, (htwo _).mpr ?_, (hfour _).mpr ?_,
    (hfirst (by decide)).mpr ?_, ?_⟩
  · rw [hs]
    exact ⟨by decide, by decide⟩
  · rw [Ne, hend, hs]
    rintro ⟨-, hp⟩
    exact absurd hp (by decide)
  · rw [if_neg (by decide), hb]
    exact ⟨.two, by decide, by decide⟩
  · rw [if_neg (by decide), hb]
    exact ⟨.four, by decide, by decide⟩
  · rw [hg]
    decide
  · cases hx : m.guid (2 : Nat) with
    | error e =>
      exact ⟨e, rfl, hfails.kind_eq (fun hhuge => Bool.false_ne_true (hhuge.1.symm.trans ht)) hx⟩
    | ok o =>
      obtain ⟨g, rfl, -⟩ := (hpartial o).mp hx
      have hle := (hsecond (by decide)).mp ⟨g, hx⟩
      rw [hg] at hle
      exact absurd hle (by decide)

/-- The first number of a GUID that a missing heap is not asked for. The failure is for
the bits of the number and not for the metadata. -/
theorem bareFile_far_guid : ∃ m e, read Session.bareFile = .ok m ∧ m.guid (2 ^ 59 + 1) = .error e ∧
    e.kind ≠ .invalidMetadata := by
  obtain ⟨m, hm, hg⟩ := Session.opens_bareFile
  refine ⟨m, .hugePosition (2 ^ 63), hm, ?_, by simp [Error.kind]⟩
  rw [guid, hg]
  rfl

end Image

end DebugMetadata
