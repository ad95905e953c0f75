import DebugMetadata.Proofs.Draft.Opening
import DebugMetadata.Proofs.Draft.Variables
import DebugMetadata.Proofs.Image.Parents

/-!
# Records of a written draft

Records are sorted by coded parent when they are written. That does not change
the order of those with one parent, so an entity has its records in the order
of the draft. With the variables of its methods, the file of a well-formed draft
says what the draft says (`file_says_draft`).
-/

namespace DebugMetadata

/-! ## Sorting and listing -/

theorem filter_insertionSort {α : Type} (r : α → α → Prop) [DecidableRel r] {p : α → Bool}
    (l : List α)
    (h : ∀ a b, p a → p b → r a b) : (l.insertionSort r).filter p = l.filter p := by
  -- the selected elements are sorted, so they stay a sublist, and no element comes or goes
  have hp : (l.filter p).Pairwise r := by
    apply List.pairwise_of_forall_mem_list
    intro a ha b hb
    exact h a b (List.mem_filter.mp ha).2 (List.mem_filter.mp hb).2
  have hsub : ((l.filter p).filter p).Sublist ((l.insertionSort r).filter p) :=
    (List.sublist_insertionSort hp List.filter_sublist).filter p
  have hsame : (l.filter p).filter p = l.filter p :=
    List.filter_eq_self.mpr fun a ha => (List.mem_filter.mp ha).2
  rw [hsame] at hsub
  exact (hsub.eq_of_length ((List.perm_insertionSort r l).filter p).length_eq.symm).symm

theorem Listing.through_ok {ε α β γ : Type} {f : α → Except ε β} {k : γ → α} {g : γ → β}
    {as : List γ}
    (h : ∀ a ∈ as, f (k a) = .ok (g a)) (found : List β) :
    Listing.through f found (as.map k) = ⟨found.reverse ++ as.map g, none⟩ := by
  induction as generalizing found with
  | nil => simp [through]
  | cons a as ih =>
    rw [List.map_cons, through, h a (List.mem_cons_self ..)]
    simp only
    rw [ih fun a ha => h a (List.mem_cons_of_mem _ ha)]
    simp

namespace Draft

/-! ## Parents -/

theorem Owner.decode_coded (o : Owner) : Parent.decode o.coded = some o.handle := by
  have of : ∀ (tag row : Nat) (t : Table), Parent.tables[tag]? = some t →
      Parent.decode (32 * row + tag) = some (Handle.ofRow t row) :=
    fun _ _ _ ht => (Parent.decode_eq_iff ht).mpr (by omega)
  cases o with
  | methodDef row => exact of 0 row .methodDef rfl
  | moduleDef => exact of 7 1 .moduleDef rfl
  | localScope row => exact of 23 row .localScope rfl
  | localVariable row => exact of 24 row .localVariable rfl

theorem Owner.handle_injective {a b : Owner} (h : a.handle = b.handle) : a = b := by
  have hrow : ∀ {t u : Table} {i j : Nat}, Handle.ofRow t i = Handle.ofRow u j → t = u ∧ i = j := by
    intro t u i j h
    obtain ⟨ht, hi⟩ := Handle.mk.inj h
    exact ⟨Table.number_injective (Int.ofNat_inj.mp ht), Int.ofNat_inj.mp hi⟩
  unfold handle Handle.ofModule at h
  cases a with
  | methodDef row => cases b with
    | methodDef row' => rw [(hrow h).2]
    | _ => cases (hrow h).1
  | moduleDef => cases b with
    | moduleDef => rfl
    | _ => cases (hrow h).1
  | localScope row => cases b with
    | localScope row' => rw [(hrow h).2]
    | _ => cases (hrow h).1
  | localVariable row => cases b with
    | localVariable row' => rw [(hrow h).2]
    | _ => cases (hrow h).1

/-! ## Attachments -/

variable {d : Draft} {m : Image}

def attachment (e : Entry × Nat × Nat) : Attachment := ⟨e.1.owner.handle, e.2.1, e.2.2⟩

def indexedOf (d : Draft) (entity : Handle) : List (Entry × Nat × Nat) :=
  d.indexed.filter fun e => e.1.owner.handle = entity

theorem map_fst_indexed (d : Draft) : d.indexed.map (·.1) = d.entries := by
  unfold indexed
  refine List.map_fst_zip ?_
  rw [List.length_zip, length_offsets, List.length_range', Nat.min_self]

theorem map_fst_indexedOf (d : Draft) (entity : Handle) :
    (d.indexedOf entity).map (·.1) = d.entries.filter fun e => e.owner.handle = entity := by
  conv => rhs; rw [← map_fst_indexed d]
  rw [List.filter_map]; rfl

theorem filter_sorted (d : Draft) (entity : Handle) :
    (d.sorted.filter fun e => e.1.owner.handle = entity) = d.indexedOf entity := by
  unfold sorted indexedOf
  apply filter_insertionSort
  intro a b ha hb
  have ha := of_decide_eq_true ha
  have hb := of_decide_eq_true hb
  rw [Owner.handle_injective (ha.trans hb.symm)]

theorem getElem?_of_mem_indexed {e : Entry × Nat × Nat} (h : e ∈ d.indexed) :
    ∃ i, d.entries[i]? = some e.1 ∧ e.2.1 = i + 1 ∧
      (e.1, e.2.2) ∈ d.entries.zip (offsets (fun e => (blob e.payload).length) 1 d.entries) := by
  obtain ⟨i, hi⟩ := List.mem_iff_getElem?.mp h
  obtain ⟨he, hz⟩ := List.getElem?_zip_eq_some.mp hi
  obtain ⟨hk, hv⟩ := List.getElem?_zip_eq_some.mp hz
  refine ⟨i, he, ?_, List.mem_of_getElem? (List.getElem?_zip_eq_some.mpr ⟨he, hv⟩)⟩
  obtain ⟨_, hk⟩ := List.getElem?_eq_some_iff.mp hk
  rw [List.getElem_range'] at hk
  omega

section
variable (ho : d.IsOpened m)
include ho

theorem attached_eq (entity : Handle) :
    m.attached entity = .ok ((d.indexedOf entity).map attachment) := by
  have hw := ho.rows .customDebugInformation
  rw [getD_customDebugInformation] at hw
  have hrows : (m.view .customDebugInformation).rows =
      .ok (TableView.numbered DebugTable.customDebugInformation.names d.recordRows) := by
    rw [hw.rows_eq, ho.columns]
  have hrow : ∀ e : Entry × Nat × Nat,
    Attachment.ofRow? (DebugTable.customDebugInformation.names.zip
      [e.1.owner.coded, e.2.1, e.2.2]) = some (attachment e) := by
    intro e
    show (Parent.decode e.1.owner.coded).map _ = _
    rw [Owner.decode_coded]; rfl
  unfold Image.attached
  rw [hrows, recordRows, TableView.numbered_map]
  refine congrArg Except.ok ?_
  -- every coded parent decodes, so no row is left out
  have hall : (d.sorted.zipIdx 1).filterMap
      ((fun p : Nat × Row => Attachment.ofRow? p.2) ∘ fun p => (p.2, DebugTable.customDebugInformation.names.zip
        [p.1.1.owner.coded, p.1.2.1, p.1.2.2])) = d.sorted.map attachment := by
    rw [List.filterMap_congr fun p _ => hrow p.1, List.filterMap_eq_map']
    conv => rhs; rw [← List.zipIdx_map_fst 1 d.sorted]
    rw [List.map_map]; rfl
  rw [List.filterMap_map, hall, List.filter_map, ← filter_sorted]
  refine congrArg (List.map _) (List.filter_congr fun e _ => ?_)
  rw [Bool.eq_iff_iff, Function.comp_apply, beq_iff_eq, decide_eq_true_eq]; rfl

theorem guid_eq {e : Entry × Nat × Nat} (h : e ∈ d.indexed) :
    Heap.guid m.guids e.2.1 = .ok (some e.1.kind) := by
  obtain ⟨i, he, hk, _⟩ := getElem?_of_mem_indexed h
  have hg : m.guids.Holds 0 d.guids := Block.holds_of_prefix ho.guids
  have hat := hg.chunk (fun e _ => Guid.length_bytes e.kind) he
  rw [Nat.zero_add] at hat
  rw [hk]
  exact Heap.guid_of_holds (Nat.succ_ne_zero i) hat

theorem blob_eq (hp : ∀ e ∈ d.entries, e.payload.length < 2 ^ 29) {e : Entry × Nat × Nat}
    (h : e ∈ d.indexed) : Heap.blob m.blobs e.2.2 = .ok e.1.payload := by
  obtain ⟨i, he, _, hv⟩ := getElem?_of_mem_indexed h
  have hb := ho.blobs
  unfold padded blobs at hb
  have hat := holds_of_mem_zip_offsets (Block.holds_of_cons hb) hv
  have hlow := (le_of_mem_offsets (List.of_mem_zip hv).2).1
  exact Heap.blob_of_holds (by omega) hat
    (Compressed.lt_bound_narrowest (hp e.1 (List.mem_of_getElem? he)))

/-! ## Records -/

theorem record_eq (hp : ∀ e ∈ d.entries, e.payload.length < 2 ^ 29) {e : Entry × Nat × Nat}
    (h : e ∈ d.indexed) :
    (attachment e).record m.guids m.blobs = .ok ⟨some e.1.kind, e.1.payload⟩ := by
  unfold Attachment.record attachment
  rw [guid_eq ho h, blob_eq ho hp h]; rfl

theorem records_eq (hp : ∀ e ∈ d.entries, e.payload.length < 2 ^ 29) (entity : Handle) :
    m.records entity =
      ⟨(d.entries.filter fun e => e.owner.handle = entity).map fun e => ⟨some e.kind, e.payload⟩,
      none⟩ := by
  have hrecord : ∀ e ∈ d.indexedOf entity,
      (attachment e).record m.guids m.blobs = .ok ⟨some e.1.kind, e.1.payload⟩ :=
    fun e he => record_eq ho hp (List.mem_filter.mp he).1
  unfold Image.records
  rw [attached_eq ho]
  refine (Listing.through_ok hrecord []).trans ?_
  rw [List.reverse_nil, List.nil_append, ← map_fst_indexedOf, List.map_map]; rfl

theorem find?_eq (kind : RecordKind) {es : List (Entry × Nat × Nat)} (h : ∀ e ∈ es, e ∈ d.indexed) :
    Attachment.find? m.guids kind (es.map attachment) =
      .ok ((es.find? fun e => e.1.kind = kind.guid).map attachment) := by
  induction es with
  | nil => rfl
  | cons e es ih =>
    rw [List.map_cons, Attachment.find?]
    rw [show (attachment e).kind = e.2.1 from rfl, guid_eq ho (h e (List.mem_cons_self ..))]
    simp only
    by_cases hk : e.1.kind = kind.guid
    · rw [if_pos (congrArg some hk), List.find?_cons_of_pos (by simpa using hk)]; rfl
    · rw [if_neg (by simpa using hk), List.find?_cons_of_neg (by simpa using hk)]
      exact ih fun e he => h e (List.mem_cons_of_mem _ he)

theorem payload?_eq (hp : ∀ e ∈ d.entries, e.payload.length < 2 ^ 29) (entity : Handle)
    (kind : RecordKind) :
    m.payload? entity kind =
      .ok (((d.entries.filter fun e => e.owner.handle = entity).find?
        fun e => e.kind = kind.guid).map (·.payload)) := by
  have hmem : ∀ e ∈ d.indexedOf entity, e ∈ d.indexed := fun e he => (List.mem_filter.mp he).1
  unfold Image.payload?
  rw [attached_eq ho, ← map_fst_indexedOf, List.find?_map,
    show (fun e : Entry => decide (e.kind = kind.guid)) ∘ (·.1) =
      fun e : Entry × Nat × Nat => decide (e.1.kind = kind.guid) from rfl]
  simp only [bind, Except.bind]
  rw [find?_eq ho kind hmem]
  cases hf : (d.indexedOf entity).find? fun e => e.1.kind = kind.guid with
  | none => rfl
  | some e =>
    have hb := blob_eq ho hp (hmem e (List.mem_of_find?_eq_some hf))
    show (Heap.blob m.blobs e.2.2).map some = .ok (some e.1.payload)
    rw [hb]; rfl

end

/-! ## What a file says -/

/-- The file opens. Every method has the variables of its scopes, scope by scope
and with their numbers in the scope, and every entity has its records, in the
order of the draft. -/
theorem file_says_draft (d : Draft) (hd : d.WellFormed) : ∃ m, Image.read d.file = .ok m ∧
    (∀ r : Nat, ∃ runs vs, m.variableRuns (Handle.ofRow .methodDef r) = .ok runs ∧
      ((Run.allRows runs).mapM fun k => m.localVariable (Handle.ofRow .localVariable k)) = .ok vs ∧
      vs.map (fun v => (v.name, v.index)) =
        (d.scopes.filter (·.method = r)).flatMap (·.names.zipIdx)) ∧
    (∀ entity, m.records entity =
      ⟨(d.entries.filter fun e => e.owner.handle = entity).map fun e => ⟨some e.kind, e.payload⟩,
        none⟩) ∧
    ∀ entity kind, m.payload? entity kind =
      .ok (((d.entries.filter fun e => e.owner.handle = entity).find?
        fun e => e.kind = kind.guid).map (·.payload)) := by
  obtain ⟨m, hm, ho⟩ := read_file hd
  exact ⟨m, hm, variables_eq ho hd.names, records_eq ho hd.payloads, payload?_eq ho hd.payloads⟩

/-- Two of the scopes are of one method, and three of the records of one module,
of which two are of one kind. -/
theorem sample_says : sample.WellFormed ∧ ∃ m, Image.read sample.file = .ok m ∧
    (∃ runs vs, m.variableRuns (Handle.ofRow .methodDef 2) = .ok runs ∧
      ((Run.allRows runs).mapM fun k => m.localVariable (Handle.ofRow .localVariable k)) = .ok vs ∧
      vs.map (fun v => (v.name, v.index)) = [("x", 0), ("", 1), ("é", 0)]) ∧
    m.records Handle.ofModule = ⟨[⟨some RecordKind.sourceLink.guid, [1, 2]⟩,
      ⟨some RecordKind.embeddedSource.guid, [3]⟩, ⟨some RecordKind.sourceLink.guid, []⟩], none⟩ ∧
    m.payload? Handle.ofModule .sourceLink = .ok (some [1, 2]) := by
  obtain ⟨m, hm, hvariables, hrecords, hpayload⟩ := file_says_draft sample wellFormed_sample
  refine ⟨wellFormed_sample, m, hm, ?_, (hrecords _).trans ?_, (hpayload _ _).trans ?_⟩
  · obtain ⟨runs, vs, hruns, hvs, hmap⟩ := hvariables 2
    exact ⟨runs, vs, hruns, hvs, hmap.trans (by decide)⟩
  · rfl
  · rfl

end Draft

end DebugMetadata
