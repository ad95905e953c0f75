import DebugMetadata.Proofs.Image.Heap
import DebugMetadata.Proofs.Image.Parents

/-!
# Records looked up and listed

A look-up of a payload goes through the records of an entity and stops at the
first one of its kind, a listing looks up the GUID and the payload of each. They
agree (`payload_agrees_with_records`), but each of them meets only the faults in
what it looks at.
-/

namespace DebugMetadata

/-! ## Listings that look up every item -/

namespace Listing

variable {α β : Type} {f : α → Except Error β}

theorem through_eq (found : List β) (as : List α) :
    through f found as = ⟨found.reverse ++ (through f [] as).items, (through f [] as).failure⟩ := by
  induction as generalizing found with
  | nil => rw [through, through, List.reverse_nil, List.append_nil]
  | cons a as ih =>
    rw [through, through]
    cases f a with
    | error e => rw [List.reverse_nil, List.append_nil]
    | ok b =>
      simp only
      rw [ih (b :: found), ih [b], List.reverse_cons, List.reverse_singleton, List.append_assoc]

theorem through_cons {a : α} {b : β} (h : f a = .ok b) (as : List α) :
    through f [] (a :: as) = ⟨b :: (through f [] as).items, (through f [] as).failure⟩ := by
  rw [through, h]
  exact through_eq [b] as

theorem all_cons (b : β) (items : List β) (failure : Option Error) :
    (Listing.mk (b :: items) failure).all = (Listing.mk items failure).all.map (b :: ·) := by
  cases failure with
  | none => rfl
  | some e => rfl

theorem upTo_cons (b : β) (items : List β) (failure : Option Error) (n : Nat) :
    (Listing.mk (b :: items) failure).upTo (some (n + 1)) =
      ((Listing.mk items failure).upTo (some n)).map (b :: ·) := by
  unfold upTo
  simp only [List.length_cons, Nat.add_le_add_iff_right, List.take_succ_cons, all_cons]
  split
  · rfl
  · rfl

theorem all_through (as : List α) : (through f [] as).all = as.mapM f := by
  induction as with
  | nil => rfl
  | cons a as ih =>
    cases h : f a with
    | error e => rw [mapM_cons_of_error h, through, h]; rfl
    | ok b => rw [mapM_cons_of_ok h, through_cons h, all_cons, ← ih]

theorem upTo_through (as : List α) (n : Nat) :
    (through f [] as).upTo (some n) = (as.take n).mapM f := by
  induction as generalizing n with
  | nil => simp [through, upTo, all, pure, Except.pure]
  | cons a as ih =>
    cases n with
    | zero => simp [upTo, pure, Except.pure]
    | succ n =>
      rw [List.take_succ_cons]
      cases h : f a with
      | error e => rw [mapM_cons_of_error h, through, h]; rfl
      | ok b => rw [mapM_cons_of_ok h, through_cons h, upTo_cons, ih]

end Listing

/-! ## Indices in rows -/

theorem Row.get_decode_lt {columns : List (Column × Nat)} (hw : ∀ c ∈ columns, c.2 ≤ 4)
    (bs : List UInt8) (c : Column) : (decode columns bs).get c < 2 ^ 32 := by
  induction columns generalizing bs with
  | nil => exact Nat.two_pow_pos 32
  | cons d columns ih =>
    obtain ⟨d, w⟩ := d
    rw [List.forall_mem_cons] at hw
    unfold get
    rw [decode, Keyed.find?]
    split
    · have hv := LittleEndian.value_lt (bs.take w)
      rw [LittleEndian.bound_eq] at hv
      have hl : (bs.take w).length ≤ 4 := Nat.le_trans (List.length_take_le w bs) hw.1
      exact Nat.lt_of_lt_of_le hv (Nat.pow_le_pow_right (by decide) hl)
    · exact ih hw.2 _

namespace Heap

variable {heap : Block} {i : Nat}

theorem guid_of_lt (h : heap.size < Guid.size * i) : guid heap i = .error (.guidOutOfRange i) := by
  have hi : i ≠ 0 := by
    rintro rfl
    exact Nat.not_lt_zero _ h
  have hlt : heap.size < 16 * i := h
  rw [guid_eq hi, if_neg (Nat.not_le_of_lt hlt)]

theorem guid_of_le (h : Guid.size * i ≤ heap.size) : ∃ g, guid heap i = .ok g := by
  by_cases hi : i = 0
  · rw [hi]
    exact ⟨none, rfl⟩
  · have hle : 16 * i ≤ heap.size := h
    rw [guid_eq hi, if_pos hle]
    exact ⟨_, rfl⟩

theorem index_of_lt {there : Bool} {position : Int} (h1 : -2 ^ 63 ≤ position)
    (h2 : position < 2 ^ 63) : index there position i = .ok i := by
  have ht : takes there position = true := by
    unfold takes
    rw [decide_eq_true (show -seekBound ≤ position ∧ position < seekBound from ⟨h1, h2⟩),
      Bool.or_true]
  unfold index
  rw [if_pos ht, if_neg (by omega), Int.toNat_natCast]

end Heap

namespace Image

variable (m : Image)

theorem guid_of_small {i : Nat} (h : i < 2 ^ 32) : m.ask (.guid i) = Heap.guid m.guids i := by
  show (Heap.index _ _ _ >>= fun i => Heap.guid m.guids i) = _
  rw [Heap.index_of_lt (by simp only [Guid.size]; omega) (by simp only [Guid.size]; omega)]; rfl

theorem blob_of_small {i : Nat} (h : i < 2 ^ 32) : m.ask (.blob i) = Heap.blob m.blobs i := by
  show (Heap.index _ _ _ >>= fun i => Heap.blob m.blobs i) = _
  rw [Heap.index_of_lt (by omega) (by omega)]; rfl

theorem small_of_attached {entity : Handle} {as : List Attachment}
    (h : m.attached entity = .ok as) : ∀ a ∈ as, a.kind < 2 ^ 32 ∧ a.value < 2 ^ 32 := by
  obtain ⟨rows, hrows, h⟩ := bind_eq_ok_iff.mp h
  cases h
  rw [Parent.filterMap_ofRow?]
  intro a ha
  obtain ⟨p, hp, rfl⟩ := List.mem_map.mp ha
  obtain ⟨_, hrow⟩ := (TableView.mem_rows_iff hrows).mp (Parent.mem_rowsOf.mp hp).1
  have hsmall : ∀ c, p.2.get c < 2 ^ 32 := by
    intro c
    rw [hrow]
    refine Row.get_decode_lt ?_ _ c
    rw [m.columns_view]
    intro d hd
    obtain ⟨d, _, rfl⟩ := List.mem_map.mp hd
    show m.sizes.width d.2 ≤ 4
    rcases m.sizes.width_eq d.2 with hw | hw
    · rw [hw]; decide
    · rw [hw]
  exact ⟨hsmall _, hsmall _⟩

/-! ## The first record of a kind -/

def hasKind (kind : RecordKind) (a : Attachment) : Bool :=
  (m.guid a.kind).toOption = some (some kind.guid)

/-- The attachments before the first one of the kind, all of them if there is none. -/
def beforeKind (kind : RecordKind) (as : List Attachment) : List Attachment :=
  as.takeWhile fun a => !m.hasKind kind a

section
variable {m} {kind : RecordKind} {a : Attachment} (ha : a.kind < 2 ^ 32)
include ha

theorem hasKind_of_guid {g : Option Guid} (hg : Heap.guid m.guids a.kind = .ok g) :
    m.hasKind kind a = decide (g = some kind.guid) := by
  have h : m.guid a.kind = .ok g := (m.guid_of_small ha).trans hg
  simp [hasKind, h, Except.toOption]

theorem hasKind_of_lt (h : m.guids.size < Guid.size * a.kind) : m.hasKind kind a = false := by
  have he : m.guid a.kind = .error (.guidOutOfRange a.kind) :=
    (m.guid_of_small ha).trans (Heap.guid_of_lt h)
  simp [hasKind, he, Except.toOption]

end

theorem find?_eq_of_small (kind : RecordKind) {as : List Attachment}
    (hs : ∀ a ∈ as, a.kind < 2 ^ 32) :
    Attachment.find? m.guids kind as =
      match (m.beforeKind kind as).find? fun a => m.guids.size < Guid.size * a.kind with
      | some a => .error (.guidOutOfRange a.kind)
      | none => .ok (as.find? (m.hasKind kind)) := by
  induction as with
  | nil => rfl
  | cons a as ih =>
    rw [List.forall_mem_cons] at hs
    unfold beforeKind at *
    rw [Attachment.find?, List.takeWhile_cons, List.find?_cons]
    by_cases hlt : m.guids.size < Guid.size * a.kind
    · rw [Heap.guid_of_lt hlt, hasKind_of_lt hs.1 hlt]
      simp [hlt]
    · obtain ⟨g, hg⟩ := Heap.guid_of_le (Nat.le_of_not_lt hlt)
      rw [hg, hasKind_of_guid hs.1 hg]
      simp only
      by_cases hk : g = some kind.guid
      · simp [hk]
      · rw [if_neg hk, ih hs.2]
        simp [hk, hlt]

end Image

theorem Record.kind?_eq_some_iff {r : Record} {kind : RecordKind} :
    r.kind? = some kind ↔ r.guid = some kind.guid := by
  unfold Record.kind?
  constructor
  · intro h
    obtain ⟨g, hg, hk⟩ := Option.bind_eq_some_iff.mp h
    have hguid : (kind.guid == g) = true :=
      List.find?_some (p := fun k : RecordKind => k.guid == g) hk
    rw [hg, eq_of_beq hguid]
  · intro h
    rw [h, Option.bind_some, RecordKind.ofGuid?_guid]

theorem Attachment.record_eq_ok_iff {guids blobs : Block} {a : Attachment} {r : Record} :
    a.record guids blobs = .ok r ↔
      Heap.guid guids a.kind = .ok r.guid ∧ Heap.blob blobs a.value = .ok r.payload := by
  unfold Attachment.record
  constructor
  · intro h
    obtain ⟨guid, hg, h⟩ := bind_eq_ok_iff.mp h
    obtain ⟨payload, hp, h⟩ := bind_eq_ok_iff.mp h
    cases h
    exact ⟨hg, hp⟩
  · rintro ⟨hg, hp⟩
    rw [hg, hp]; rfl

theorem Attachment.find?_of_mapM {guids blobs : Block} (kind : RecordKind) {as : List Attachment}
    {rs : List Record}
    (h : as.mapM (Attachment.record guids blobs) = .ok rs) :
    ∃ found, Attachment.find? guids kind as = .ok found ∧
      found.map (fun a => Heap.blob blobs a.value) =
        (rs.find? fun r => r.kind? = some kind).map fun r => .ok r.payload := by
  induction as generalizing rs with
  | nil =>
    cases h
    exact ⟨none, rfl, rfl⟩
  | cons a as ih =>
    rw [List.mapM_cons] at h
    obtain ⟨r, hr, h⟩ := bind_eq_ok_iff.mp h
    obtain ⟨rest, hrest, h⟩ := bind_eq_ok_iff.mp h
    cases h
    obtain ⟨hg, hp⟩ := Attachment.record_eq_ok_iff.mp hr
    rw [Attachment.find?, hg]
    simp only
    -- the search and the look-up among the records stop at the same element
    by_cases hk : r.guid = some kind.guid
    · rw [if_pos hk, List.find?_cons_of_pos (by simpa using Record.kind?_eq_some_iff.mpr hk)]
      exact ⟨some a, rfl, congrArg some hp⟩
    · rw [if_neg hk, List.find?_cons_of_neg (by simpa [Record.kind?_eq_some_iff] using hk)]
      exact ih hrest

namespace Image

/-! ## Tables that cannot be listed -/

section
variable {m : Image} {e : Error} (h : (m.view .customDebugInformation).rows = .error e)
    (entity : Handle)
include h

theorem attached_of_error : m.attached entity = .error e := by
  unfold attached
  rw [h]; rfl

theorem payload?_of_error (kind : RecordKind) : m.payload? entity kind = .error e := by
  unfold payload?
  rw [attached_of_error h]; rfl

theorem exists_records_upTo_of_error_iff (n : Nat) :
    (∃ rs, m.ask (.records entity (some n)) = .ok rs) ↔ n = 0 := by
  have hrecords : m.records entity = ⟨[], some e⟩ := by
    unfold records
    rw [attached_of_error h]
  show (∃ rs, (m.records entity).upTo (some n) = .ok rs) ↔ n = 0
  rw [hrecords]
  cases n with
  | zero => exact iff_of_true ⟨[], rfl⟩ rfl
  | succ n =>
    refine iff_of_false ?_ (Nat.succ_ne_zero n)
    rintro ⟨rs, h⟩
    cases h

end

/-! ## Tables that can be listed -/

section
variable {m : Image} {entity : Handle} {kind : RecordKind} {as : List Attachment}
    (h : m.attached entity = .ok as)
include h

theorem payload?_of_attached : m.payload? entity kind =
    match (m.beforeKind kind as).find? fun a => m.guids.size < Guid.size * a.kind with
    | some a => .error (.guidOutOfRange a.kind)
    | none =>
      match as.find? (m.hasKind kind) with
      | none => .ok none
      | some a => (m.ask (.blob a.value)).map some := by
  have hsmall := m.small_of_attached h
  have hfind := m.find?_eq_of_small kind fun a ha => (hsmall a ha).1
  unfold payload?
  rw [h]
  show (Attachment.find? m.guids kind as >>= _) = _
  rw [hfind]
  cases (m.beforeKind kind as).find? fun a => m.guids.size < Guid.size * a.kind with
  | some a => rfl
  | none =>
    cases hf : as.find? (m.hasKind kind) with
    | none => rfl
    | some a =>
      have hb := m.blob_of_small (hsmall a (List.mem_of_find?_eq_some hf)).2
      exact (congrArg (Except.map some) hb).symm

theorem payload?_of_inside (hin : ∀ a ∈ m.beforeKind kind as, Guid.size * a.kind ≤ m.guids.size) :
    m.payload? entity kind = match as.find? (m.hasKind kind) with
      | none => .ok none
      | some a => (m.ask (.blob a.value)).map some := by
  have hnone :
      ((m.beforeKind kind as).find? fun a => m.guids.size < Guid.size * a.kind) = none := by
    simpa using hin
  rw [payload?_of_attached h, hnone]

theorem exists_payload?_error_iff : (∃ e, m.payload? entity kind = .error e) ↔
    (∃ a ∈ m.beforeKind kind as, m.guids.size < Guid.size * a.kind) ∨
      ∃ a, as.find? (m.hasKind kind) = some a ∧ ∃ e, m.ask (.blob a.value) = .error e := by
  by_cases hin : ∀ a ∈ m.beforeKind kind as, Guid.size * a.kind ≤ m.guids.size
  · rw [payload?_of_inside h hin, or_iff_right (by simpa using hin)]
    cases as.find? (m.hasKind kind) with
    | none => simp
    | some a => simp [map_eq_error_iff]
  · obtain ⟨a, ha, hlt⟩ : ∃ a ∈ m.beforeKind kind as,
        m.guids.size < Guid.size * a.kind := by simpa using hin
    refine iff_of_true ?_ (.inl ⟨a, ha, hlt⟩)
    cases hf : (m.beforeKind kind as).find? fun a => m.guids.size < Guid.size * a.kind with
    | none => exact absurd (decide_eq_true hlt) (List.find?_eq_none.mp hf a ha)
    | some b =>
      rw [payload?_of_attached h, hf]
      exact ⟨_, rfl⟩

theorem records_upTo_of_attached (n : Nat) :
    m.ask (.records entity (some n)) = (as.take n).mapM (Attachment.record m.guids m.blobs) := by
  show (m.records entity).upTo (some n) = _
  unfold records
  rw [h]
  exact Listing.upTo_through as n

theorem records_of_attached :
    m.ask (.records entity none) = as.mapM (Attachment.record m.guids m.blobs) := by
  show (m.records entity).all = _
  unfold records
  rw [h]
  exact Listing.all_through as

theorem exists_records_upTo_iff (n : Nat) : (∃ rs, m.ask (.records entity (some n)) = .ok rs) ↔
    ∀ a ∈ as.take n,
      Guid.size * a.kind ≤ m.guids.size ∧ ∃ payload, m.ask (.blob a.value) = .ok payload := by
  rw [records_upTo_of_attached h, mapM_exists_ok_iff]
  refine forall₂_congr fun a ha => ?_
  rw [m.blob_of_small (m.small_of_attached h a (List.mem_of_mem_take ha)).2]
  constructor
  · rintro ⟨r, hr⟩
    obtain ⟨hg, hp⟩ := Attachment.record_eq_ok_iff.mp hr
    refine ⟨Nat.le_of_not_lt fun hlt => ?_, r.payload, hp⟩
    rw [Heap.guid_of_lt hlt] at hg
    cases hg
  · rintro ⟨hle, payload, hp⟩
    obtain ⟨guid, hg⟩ := Heap.guid_of_le hle
    exact ⟨⟨guid, payload⟩, Attachment.record_eq_ok_iff.mpr ⟨hg, hp⟩⟩

theorem payload?_of_records {rs : List Record} (hrs : m.ask (.records entity none) = .ok rs) :
    m.payload? entity kind = .ok ((rs.find? fun r => r.kind? = some kind).map (·.payload)) := by
  rw [records_of_attached h] at hrs
  obtain ⟨found, hf, hp⟩ := Attachment.find?_of_mapM kind hrs
  unfold payload?
  rw [h]
  show (Attachment.find? m.guids kind as >>= _) = _
  rw [hf]
  cases found with
  | none =>
    rw [Option.map_none, eq_comm, Option.map_eq_none_iff] at hp
    rw [hp]; rfl
  | some a =>
    obtain ⟨r, hr, he⟩ := Option.map_eq_some_iff.mp hp.symm
    rw [hr]
    exact (congrArg (Except.map some) he).symm

end

/-- A look-up gives the payload of the first attachment of the kind, or nothing if
there is none. It fails only if the table cannot be listed, or the GUID index of an
attachment before that one is out of range, or the payload cannot be read; no other
payload and no later attachment has a part in it. Where the listing of all records
succeeds, the look-up gives what the first listed record of the kind has. So many
records can be listed exactly if the table and the GUIDs and payloads of as many
attachments can be read; none can be listed of any table. -/
theorem payload_agrees_with_records (m : Image) (entity : Handle) (kind : RecordKind) :
    (∀ e, (m.view .customDebugInformation).rows = .error e →
      m.ask (.payload entity kind) = .error e ∧
      ∀ n, (∃ rs, m.ask (.records entity (some n)) = .ok rs) ↔ n = 0) ∧
    ∀ rows, (m.view .customDebugInformation).rows = .ok rows →
      ∃ as, m.ask (.attached entity none) = .ok as ∧
      ((∃ e, m.ask (.payload entity kind) = .error e) ↔
        (∃ a ∈ m.beforeKind kind as, m.guids.size < Guid.size * a.kind) ∨
          ∃ a, as.find? (m.hasKind kind) = some a ∧ ∃ e, m.ask (.blob a.value) = .error e) ∧
      ((∀ a ∈ m.beforeKind kind as, Guid.size * a.kind ≤ m.guids.size) →
        m.ask (.payload entity kind) = match as.find? (m.hasKind kind) with
          | none => .ok none
          | some a => (m.ask (.blob a.value)).map some) ∧
      (∀ rs, m.ask (.records entity none) = .ok rs →
        m.ask (.payload entity kind) =
          .ok ((rs.find? fun r => r.kind? = some kind).map (·.payload))) ∧
      ∀ n, (∃ rs, m.ask (.records entity (some n)) = .ok rs) ↔
        ∀ a ∈ as.take n, Guid.size * a.kind ≤ m.guids.size ∧
          ∃ payload, m.ask (.blob a.value) = .ok payload := by
  constructor
  · intro e he
    exact ⟨payload?_of_error he entity kind, exists_records_upTo_of_error_iff he entity⟩
  · intro rows hrows
    obtain ⟨as, ha⟩ : ∃ as, m.attached entity = .ok as := by
      unfold attached
      rw [hrows]
      exact ⟨_, rfl⟩
    have hask : m.ask (.attached entity none) = .ok as := by
      show (Listing.ofExcept (m.attached entity)).all = _
      rw [ha]; rfl
    exact ⟨as, hask, exists_payload?_error_iff ha, payload?_of_inside ha,
      fun rs => payload?_of_records ha, exists_records_upTo_iff ha⟩

/-- A record with a bad payload, one of a kind, one with a GUID index out of range,
and two of a method that are in order. -/
def mixedRecords : TablesStream :=
  ⟨0, 2, 0, 0, 1, 0, 0, fun t =>
    match t with
    | .customDebugInformation => some [[39, 2, 200], [39, 1, 1], [39, 3, 1], [32, 2, 1], [32, 1, 1]]
    | _ => none⟩

def mixedFile : Block := (Container.written ⟨1, 1, padded [0x50],
  [("#Pdb", (DebugStream.mk (List.replicate 20 7) 0 0 []).written),
    ("#~", mixedRecords.written (mixedRecords.width [])), ("#Blob", [0, 1, 0xAA, 0]),
    ("#GUID", RecordKind.sourceLink.guid.bytes ++ RecordKind.embeddedSource.guid.bytes)]⟩).toArray

def moduleAttachments : List Attachment :=
  [⟨Handle.ofModule, 2, 200⟩, ⟨Handle.ofModule, 1, 1⟩, ⟨Handle.ofModule, 3, 1⟩]

theorem opens_mixedFile : ∃ m, read mixedFile = .ok m ∧
    (∃ rows, (m.view .customDebugInformation).rows = .ok rows) ∧
    m.ask (.attached Handle.ofModule none) = .ok moduleAttachments ∧
    m.guids.size = 32 ∧ (m.ask (.blob 200)).toOption = none ∧ m.ask (.blob 1) = .ok [0xAA] ∧
    m.hasKind .sourceLink ⟨Handle.ofModule, 2, 200⟩ = false ∧
    m.hasKind .sourceLink ⟨Handle.ofModule, 1, 1⟩ = true ∧
    m.beforeKind .tupleElementNames moduleAttachments = moduleAttachments ∧
    m.ask (.records (Handle.ofRow .methodDef 1) none) =
      .ok [⟨some RecordKind.embeddedSource.guid, [0xAA]⟩,
      ⟨some RecordKind.sourceLink.guid, [0xAA]⟩] := by
  have hany : ((read mixedFile).toOption.any fun m =>
      (m.view .customDebugInformation).rows.toOption.isSome ∧
      (m.ask (.attached Handle.ofModule none)).toOption = some moduleAttachments ∧
      m.guids.size = 32 ∧ (m.ask (.blob 200)).toOption = none ∧
      (m.ask (.blob 1)).toOption = some [0xAA] ∧
      m.hasKind .sourceLink ⟨Handle.ofModule, 2, 200⟩ = false ∧
      m.hasKind .sourceLink ⟨Handle.ofModule, 1, 1⟩ = true ∧
      m.beforeKind .tupleElementNames moduleAttachments = moduleAttachments ∧
      (m.ask (.records (Handle.ofRow .methodDef 1) none)).toOption =
        some [⟨some RecordKind.embeddedSource.guid, [0xAA]⟩,
          ⟨some RecordKind.sourceLink.guid, [0xAA]⟩]) = true := by
    decide +kernel
  obtain ⟨m, hm, hall⟩ := exists_ok_of_any hany
  obtain ⟨hrows, hattached, hsize, hbad, hgood, hother, hlink, hbefore, hrecords⟩ :=
    of_decide_eq_true hall
  obtain ⟨rows, hrows⟩ := Option.isSome_iff_exists.mp hrows
  exact ⟨m, hm, ⟨rows, eq_ok_of_toOption hrows⟩, eq_ok_of_toOption hattached, hsize, hbad,
    eq_ok_of_toOption hgood, hother, hlink, hbefore, eq_ok_of_toOption hrecords⟩

/-- The module has a link although the payload before it is bad, but no record of it
can be listed, and one of an absent kind is not found to be absent. -/
theorem mixedFile_payload : ∃ m, read mixedFile = .ok m ∧
    m.ask (.payload Handle.ofModule .sourceLink) = .ok (some [0xAA]) ∧
    (¬ ∃ rs, m.ask (.records Handle.ofModule (some 1)) = .ok rs) ∧
    (∃ e, m.ask (.payload Handle.ofModule .tupleElementNames) = .error e) ∧
    m.ask (.records (Handle.ofRow .methodDef 1) none) =
      .ok [⟨some RecordKind.embeddedSource.guid, [0xAA]⟩,
      ⟨some RecordKind.sourceLink.guid, [0xAA]⟩] ∧
    m.ask (.payload (Handle.ofRow .methodDef 1) .sourceLink) = .ok (some [0xAA]) := by
  obtain ⟨m, hm, ⟨rows, hrows⟩, hattached, hsize, hbad, hgood, hother, hlink, hbefore, hrecords⟩ :=
    opens_mixedFile
  obtain ⟨_, hlinked⟩ := payload_agrees_with_records m Handle.ofModule .sourceLink
  obtain ⟨_, habsent⟩ := payload_agrees_with_records m Handle.ofModule .tupleElementNames
  obtain ⟨_, hmethod⟩ := payload_agrees_with_records m (Handle.ofRow .methodDef 1) .sourceLink
  obtain ⟨as, has, _, hfound, _, hlisted⟩ := hlinked _ hrows
  obtain ⟨as', has', hfails, _⟩ := habsent _ hrows
  obtain ⟨_, _, _, _, hall, _⟩ := hmethod _ hrows
  cases hattached.symm.trans has
  cases hattached.symm.trans has'
  refine ⟨m, hm, ?_, ?_, hfails.mpr (.inl ⟨⟨Handle.ofModule, 3, 1⟩, ?_, ?_⟩), hrecords,
    (hall _ hrecords).trans rfl⟩
  · have hb : m.beforeKind .sourceLink moduleAttachments = [⟨Handle.ofModule, 2, 200⟩] := by
      simp [moduleAttachments, beforeKind, hother, hlink]
    rw [hfound (by rw [hb, hsize]; decide), moduleAttachments,
      List.find?_cons_of_neg (by simp [hother]), List.find?_cons_of_pos hlink]
    exact (congrArg (Except.map some) hgood).trans rfl
  · rw [hlisted 1]
    intro h
    obtain ⟨_, payload, hp⟩ := h _ (List.mem_cons_self ..)
    have hbad : (m.ask (.blob ((200 : Nat) : Int))).toOption = none := hbad
    rw [hp] at hbad
    cases hbad
  · rw [hbefore]
    simp [moduleAttachments]
  · rw [hsize]
    decide

end Image

end DebugMetadata
