import DebugMetadata.Proofs.Bytes.Growth
import DebugMetadata.Proofs.Draft.Records
import DebugMetadata.Proofs.Image.Question

/-!
# Files that are cut short

Every read of a file is all or nothing, so a file that is cut short gives the
answers of the whole file or none: what an opened prefix answers, the whole
file answers too (`read_append_answers`). The streams are cut short with the file,
hence the relation is one between opened files (`Image.Grows`) and every
operation is shown to keep its answers along it.
-/

namespace DebugMetadata

section
variable {b c : Block} (h : b.Grows c)
include h

/-! ## Root and directory -/

theorem isMetadata_of_grows (hb : isMetadata b = true) : isMetadata c = true := by
  unfold isMetadata at *
  rw [beq_iff_eq] at *
  exact h.read? 0 4 _ hb

theorem Root.read?_kept : Kept (Root.read? b) (Root.read? c) := by
  unfold Root.read?
  refine (h.number? 4 2).bind fun majorVersion => ?_
  refine (h.number? 6 2).bind fun minorVersion => ?_
  refine (h.number? 8 4).bind fun reserved => ?_
  refine (h.number? 12 4).bind fun length => ?_
  refine (h.read? _ _).bind fun versionField => ?_
  refine (h.number? _ 2).bind fun flags => ?_
  exact (h.number? _ 2).bind fun streamCount => .refl _

theorem StreamHeader.read?_kept (position : Nat) :
    Kept (StreamHeader.read? b position) (StreamHeader.read? c position) := by
  unfold StreamHeader.read?
  refine (h.number? _ 4).bind fun offset => ?_
  refine (h.number? _ 4).bind fun size => ?_
  exact (h.terminated? _).bind fun name => .refl _

theorem StreamHeader.readFrom?_kept (count position : Nat) (found : List StreamHeader) :
    Kept (readFrom? b count position found) (readFrom? c count position found) := by
  induction count generalizing position found with
  | zero => exact .refl _
  | succ count ih =>
    intro hs hb
    rw [readFrom?] at *
    cases hr : StreamHeader.read? b position with
    | none => rw [hr] at hb; cases hb
    | some sh =>
      rw [hr] at hb
      rw [StreamHeader.read?_kept h position sh hr]
      exact ih _ _ hs hb

theorem Directory.read?_kept (root : Root) :
    Kept (Directory.read? b root) (Directory.read? c root) :=
  (StreamHeader.readFrom?_kept h _ _ _).map _

theorem Directory.stream?_grows (d : Directory) (name : String) :
    (d.stream? b name = none ∧ d.stream? c name = none) ∨
      ∃ s t, d.stream? b name = some s ∧ d.stream? c name = some t ∧ s.Grows t := by
  unfold Directory.stream?
  cases Keyed.find? name d with
  | none => exact .inl ⟨rfl, rfl⟩
  | some e => exact .inr ⟨_, _, rfl, rfl, h.slice _ _⟩

/-! ## The required streams -/

theorem RowCounts.read?_kept (position : Nat) (tables : List Nat) :
    Kept (RowCounts.read? b position tables) (RowCounts.read? c position tables) := by
  induction tables generalizing position with
  | nil => exact .refl _
  | cons t tables ih =>
    unfold RowCounts.read?
    refine (h.number? _ 4).bind fun count => ?_
    exact (ih _).bind fun counts => .refl _

theorem DebugStream.read?_kept : Kept (DebugStream.read? b) (DebugStream.read? c) := by
  unfold DebugStream.read?
  refine (h.read? 0 20).bind fun id => ?_
  refine (h.number? 20 4).bind fun entryPoint => ?_
  refine (h.number? 24 8).bind fun referenced => ?_
  exact (RowCounts.read?_kept h _ _).bind fun counts => .refl _

theorem TablesHeader.read?_kept : Kept (TablesHeader.read? b) (TablesHeader.read? c) := by
  unfold TablesHeader.read?
  refine (h.number? 0 4).bind fun reserved => ?_
  refine (h.number? 4 1).bind fun majorVersion => ?_
  refine (h.number? 5 1).bind fun minorVersion => ?_
  refine (h.number? 6 1).bind fun heapSizes => ?_
  refine (h.number? 7 1).bind fun reserved2 => ?_
  refine (h.number? 8 8).bind fun valid => ?_
  refine (h.number? 16 8).bind fun sorted => ?_
  refine (RowCounts.read?_kept h _ _).bind fun counts => ?_
  by_cases he : hasExtra heapSizes = true
  · simp only [he, ite_true]
    exact (h.number? _ 4).bind fun _ => .refl _
  · simp only [he]
    exact .refl _

/-! ## Heaps -/

theorem Heap.guid_stays (i : Nat) : Stays (Heap.guid b i) (Heap.guid c i) := by
  intro v hv
  unfold Heap.guid at *
  split at hv
  · rename_i hi; rw [if_pos hi]; exact hv
  · rename_i hi
    rw [if_neg hi]
    cases hr : b.read? ((i - 1) * Guid.size) Guid.size with
    | none => rw [hr] at hv; cases hv
    | some bs => rw [hr] at hv; rw [h.read? _ _ _ hr]; exact hv

theorem Heap.blobLength_stays (i : Nat) : Stays (Heap.blobLength b i) (Heap.blobLength c i) := by
  -- the length may be read from fewer than four bytes at the end of the heap
  obtain ⟨more, hm⟩ := h.slice i 4
  intro v hv
  unfold Heap.blobLength at *
  simp only [hm, Array.toList_append] at *
  cases hr : Compressed.read (b.slice i 4).toList with
  | error fault =>
    rw [hr] at hv
    cases fault <;> cases hv
  | ok r =>
    obtain ⟨length, rest⟩ := r
    simp only [hr] at hv
    simp only [Compressed.read_append more.toList hr]
    rw [← hv]
    simp only [List.length_append, Except.ok.injEq, Prod.mk.injEq, true_and]
    omega

theorem Heap.blob_stays (i : Nat) : Stays (Heap.blob b i) (Heap.blob c i) := by
  intro v hv
  unfold Heap.blob at *
  split at hv
  · rename_i hi; rw [if_pos hi]; exact hv
  · rename_i hi
    rw [if_neg hi]
    cases hl : Heap.blobLength b i with
    | error e => rw [hl] at hv; cases hv
    | ok r =>
      obtain ⟨length, start⟩ := r
      rw [Heap.blobLength_stays h i _ hl]
      simp only [hl] at hv ⊢
      cases hr : b.read? start length with
      | none => rw [hr] at hv; cases hv
      | some bs => rw [hr] at hv; rw [h.read? _ _ _ hr]; exact hv

theorem Heap.string_stays (i : Nat) : Stays (Heap.string b i) (Heap.string c i) := by
  intro v hv
  unfold Heap.string at *
  cases ht : b.terminated? i with
  | none => rw [ht] at hv; cases hv
  | some bs => rw [ht] at hv; rw [h.terminated? i _ ht]; exact hv

end

/-! ## Tables -/

structure TableView.Grows (v w : TableView) : Prop where
  stream : v.stream.Grows w.stream
  offset : w.offset = v.offset
  count : w.count = v.count
  columns : w.columns = v.columns

section
variable {v w : TableView} (h : v.Grows w)
include h

theorem TableView.Grows.rowSize : w.rowSize = v.rowSize := by
  unfold TableView.rowSize; rw [h.columns]

theorem TableView.Grows.position (i : Nat) : w.position i = v.position i := by
  unfold TableView.position; rw [h.offset, h.rowSize]

theorem TableView.row_stays (i : Int) : Stays (v.row i) (w.row i) := by
  intro r hr
  unfold TableView.row at *
  rw [h.count, h.position, h.rowSize, h.columns]
  split at hr
  · rename_i hi
    rw [if_pos hi]
    cases hb : v.stream.read? (v.position i.toNat) v.rowSize with
    | none => rw [hb] at hr; cases hr
    | some bs => rw [hb] at hr; rw [h.stream.read? _ _ _ hb]; exact hr
  · cases hr

theorem TableView.rows_stays : Stays v.rows w.rows := by
  intro rs hr
  unfold TableView.rows at *
  rw [h.count, h.offset, h.rowSize]
  split at hr
  · rename_i hz; rw [if_pos hz]; exact hr
  · rename_i hz
    rw [if_neg hz]
    split at hr
    · rename_i hfit
      rw [if_pos (Nat.le_trans hfit h.stream.size_le), ← hr]
      refine congrArg Except.ok (List.map_congr_left fun i hi => congrArg (Prod.mk i) ?_)
      obtain ⟨h1, h2⟩ := List.mem_range'_1.mp hi
      have hm : (i - 1 + 1) * v.rowSize ≤ v.count * v.rowSize := Nat.mul_le_mul_right _ (by omega)
      have hp : v.position i + v.rowSize ≤ v.stream.size := by
        rw [Nat.add_one_mul] at hm
        unfold TableView.position; omega
      unfold TableView.rowAt
      rw [h.columns, h.position, h.rowSize, h.stream.slice_eq hp]
    · cases hr

end

/-! ## Listings -/

section
variable {α β : Type}

theorem Listing.upTo_ofExcept_stays {x y : Except Error (List α)} (h : Stays x y)
    (limit : Option Nat) :
    Stays ((Listing.ofExcept x).upTo limit) ((Listing.ofExcept y).upTo limit) := by
  intro as ha
  cases x with
  | ok xs => rw [h xs rfl]; exact ha
  | error e =>
    cases limit with
    | none => cases ha
    | some n =>
      -- only a listing from which nothing is taken hides the failure
      cases n with
      | zero => cases ha; simp [Listing.upTo]
      | succ n => simp [Listing.ofExcept, Listing.upTo, Listing.all] at ha

theorem Listing.prefix_through (g : α → Except Error β) (found : List β) (as : List α) :
    found.reverse <+: (Listing.through g found as).items := by
  induction as generalizing found with
  | nil => exact List.prefix_refl _
  | cons a as ih =>
    rw [Listing.through]
    cases g a with
    | error e => exact List.prefix_refl _
    | ok b => exact (List.prefix_append _ [b]).trans (List.reverse_cons ▸ ih (b :: found))

/-- A listing that goes at least as far and, if it ended well, is the same. -/
structure Listing.Stays (l k : Listing Error α) : Prop where
  items : l.items <+: k.items
  eq : l.failure = none → k = l

theorem Listing.through_stays {f g : α → Except Error β} (h : ∀ a, DebugMetadata.Stays (f a) (g a))
    (found : List β) (as : List α) :
      Listing.Stays (Listing.through f found as) (Listing.through g found as) := by
  induction as generalizing found with
  | nil => exact ⟨List.prefix_refl _, fun _ => rfl⟩
  | cons a as ih =>
    rw [Listing.through, Listing.through]
    cases hf : f a with
    | ok b => rw [h a b hf]; exact ih (b :: found)
    | error e =>
      refine ⟨?_, fun hn => by cases hn⟩
      show found.reverse <+: _
      cases g a with
      | error e => exact List.prefix_refl _
      | ok b =>
        exact (List.prefix_append _ [b]).trans
          (List.reverse_cons ▸ Listing.prefix_through g (b :: found) as)

theorem Listing.Stays.upTo {l k : Listing Error α} (h : Listing.Stays l k) (limit : Option Nat) :
    DebugMetadata.Stays (l.upTo limit) (k.upTo limit) := by
  intro as ha
  -- a listing that ended well is the same in the longer file
  have hall : ∀ as, l.all = .ok as → k = l := by
    intro as ha
    cases hl : l.failure with
    | none => exact h.eq hl
    | some e => rw [Listing.all, hl] at ha; cases ha
  cases limit with
  | none => rw [hall as ha]; exact ha
  | some n =>
    unfold Listing.upTo at *
    simp only at *
    split at ha
    · rename_i hn
      rw [if_pos (Nat.le_trans hn h.items.length_le), ← ha]
      obtain ⟨more, hm⟩ := h.items
      rw [← hm, List.take_append_of_le_length hn]
    · rename_i hn
      rw [hall as ha, if_neg hn]; exact ha

end

theorem Run.upTo_stays {x y : Except Error (List Run)} (h : Stays x y) (limit : Option Nat) :
    Stays (Run.upTo limit x) (Run.upTo limit y) := by
  cases limit with
  | none => exact h.map _
  | some n =>
    cases n with
    | zero => exact .refl _
    | succ n => exact h.map _

/-! ## Opened files -/

namespace Image

/-- Two opened files that say the same of what was read when they were opened,
and of which one has more bytes in its streams. -/
structure Grows (m n : Image) : Prop where
  root : n.root = m.root
  directory : n.directory = m.directory
  debug : n.debug = m.debug
  header : n.header = m.header
  places : n.places = m.places
  rowStream : m.rowStream.Grows n.rowStream
  strings : m.strings.Grows n.strings
  blobs : m.blobs.Grows n.blobs
  guids : m.guids.Grows n.guids

section
variable {b c : Block} (h : b.Grows c)
include h

theorem getD_grows (d : Directory) (name : String) :
    ((d.stream? b name).getD #[]).Grows ((d.stream? c name).getD #[]) := by
  rcases Directory.stream?_grows h d name with ⟨hb, hc⟩ | ⟨s, t, hb, hc, hg⟩
  · rw [hb, hc]; exact Block.grows_refl _
  · rw [hb, hc]; exact hg

theorem ofStreams_grows {root : Root} {d : Directory} {m : Image}
    (hm : ofStreams root d (d.stream? b) = .ok m) :
    ∃ n, ofStreams root d (d.stream? c) = .ok n ∧ m.Grows n := by
  unfold ofStreams at *
  rcases Directory.stream?_grows h d "#Pdb" with ⟨hb, hc⟩ | ⟨p, p', hb, hc, hp⟩
  · rw [hb] at hm; cases hm
  rcases Directory.stream?_grows h d "#~" with ⟨hb', hc'⟩ | ⟨r, r', hb', hc', hr⟩
  · rw [hb, hb'] at hm; cases hm
  rw [hb, hb'] at hm
  rw [hc, hc']
  simp only at hm ⊢
  cases hd : DebugStream.read? p with
  | none => rw [hd] at hm; cases hm
  | some debug =>
    cases ht : TablesHeader.read? r with
    | none => rw [hd, ht] at hm; cases hm
    | some header =>
      rw [DebugStream.read?_kept hp debug hd, TablesHeader.read?_kept hr header ht]
      simp only [hd, ht] at hm ⊢
      cases hl : TablePlace.locate (sizesOf debug header) header.size header.counts with
      | error e => rw [hl] at hm; cases hm
      | ok places =>
        rw [hl] at hm
        cases hm
        exact ⟨_, rfl, rfl, rfl, rfl, rfl, rfl, hr, getD_grows h d _, getD_grows h d _,
          getD_grows h d _⟩

theorem read_grows {m : Image} (hm : read b = .ok m) : ∃ n, read c = .ok n ∧ m.Grows n := by
  unfold read at *
  split at hm
  · rename_i hs
    rw [if_pos (isMetadata_of_grows h hs)]
    cases hr : Root.read? b with
    | none => rw [hr] at hm; cases hm
    | some root =>
      rw [Root.read?_kept h root hr]
      simp only [hr] at hm ⊢
      cases hd : Directory.read? b root with
      | none => rw [hd] at hm; cases hm
      | some d =>
        rw [Directory.read?_kept h root d hd]
        rw [hd] at hm
        exact ofStreams_grows h hm
  · cases hm

end

section
variable {m n : Image} (h : m.Grows n)
include h

theorem sizes_eq : n.sizes = m.sizes := by
  unfold sizes; rw [h.debug, h.header]

theorem rowCounts_eq : n.rowCounts = m.rowCounts := by
  unfold rowCounts; rw [h.debug, h.header]

theorem view_grows (t : DebugTable) : (m.view t).Grows (n.view t) := by
  unfold view
  rw [h.places, sizes_eq h]
  cases m.places.find? fun p => p.table == t with
  | none => exact ⟨h.rowStream, rfl, rfl, rfl⟩
  | some p => exact ⟨h.rowStream, rfl, rfl, rfl⟩

theorem attached_stays (entity : Handle) : Stays (m.attached entity) (n.attached entity) :=
  (TableView.rows_stays (view_grows h _)).bind fun _ => .refl _

theorem record_stays (a : Attachment) :
    Stays (a.record m.guids m.blobs) (a.record n.guids n.blobs) :=
  (Heap.guid_stays h.guids _).bind fun _ => (Heap.blob_stays h.blobs _).bind fun _ => .refl _

theorem find?_stays (kind : RecordKind) (as : List Attachment) :
    Stays (Attachment.find? m.guids kind as) (Attachment.find? n.guids kind as) := by
  induction as with
  | nil => exact .refl _
  | cons a as ih =>
    intro v hv
    rw [Attachment.find?] at *
    cases hg : Heap.guid m.guids a.kind with
    | error e => rw [hg] at hv; cases hv
    | ok guid =>
      rw [Heap.guid_stays h.guids _ _ hg]
      simp only [hg] at hv ⊢
      split at hv
      · rename_i hk; rw [if_pos hk]; exact hv
      · rename_i hk; rw [if_neg hk]; exact ih v hv

theorem payload?_stays (entity : Handle) (kind : RecordKind) :
    Stays (m.payload? entity kind) (n.payload? entity kind) := by
  refine (attached_stays h entity).bind fun as => (find?_stays h kind as).bind fun found => ?_
  cases found with
  | none => exact .refl _
  | some a => exact (Heap.blob_stays h.blobs _).map _

theorem scopes_stays (method : Handle) : Stays (m.scopes method) (n.scopes method) :=
  (TableView.rows_stays (view_grows h _)).bind fun _ => .refl _

theorem variableRun_stays (scope : Handle) : Stays (m.variableRun scope) (n.variableRun scope) := by
  have hs := view_grows h .localScope
  refine (TableView.row_stays hs _).bind fun row => ?_
  rw [hs.count, (view_grows h .localVariable).count]
  split
  · exact (TableView.row_stays hs _).bind fun _ => .refl _
  · exact .refl _

theorem mapM_variableRun_stays (rows : List Nat) :
    Stays (rows.mapM fun i => m.variableRun (Handle.ofRow .localScope i))
      (rows.mapM fun i => n.variableRun (Handle.ofRow .localScope i)) := by
  induction rows with
  | nil => exact .refl _
  | cons i rows ih =>
    rw [List.mapM_cons, List.mapM_cons]
    exact (variableRun_stays h _).bind fun _ => ih.bind fun _ => .refl _

theorem variableRuns_stays (method : Handle) :
    Stays (m.variableRuns method) (n.variableRuns method) :=
  (scopes_stays h method).bind fun rows => mapM_variableRun_stays h rows

theorem localVariable_stays (v : Handle) : Stays (m.localVariable v) (n.localVariable v) :=
  (TableView.row_stays (view_grows h _) _).bind fun _ =>
    (Heap.string_stays h.strings _).bind fun _ => .refl _

theorem ask_stays {α : Type} (q : Question α) : Stays (m.ask q) (n.ask q) := by
  have hthere : ∀ name, n.hasStream name = m.hasStream name := by
    intro name
    unfold hasStream
    rw [h.directory]
  cases q with
  | guid i =>
    simp only [ask, guid, hthere]
    exact (Stays.refl _).bind fun _ => Heap.guid_stays h.guids _
  | blob i =>
    simp only [ask, blob, hthere]
    exact (Stays.refl _).bind fun _ => Heap.blob_stays h.blobs _
  | string i =>
    simp only [ask, string, hthere]
    exact (Stays.refl _).bind fun _ => Heap.string_stays h.strings _
  | row t i => exact TableView.row_stays (view_grows h t) i
  | rows t limit => exact Listing.upTo_ofExcept_stays (TableView.rows_stays (view_grows h t)) limit
  | attached entity limit => exact Listing.upTo_ofExcept_stays (attached_stays h entity) limit
  | records entity limit =>
    intro v hv
    simp only [ask, records] at *
    cases ha : m.attached entity with
    | error e =>
      rw [ha] at hv
      have hs : Listing.Stays (⟨[], some e⟩ : Listing Error Record) (n.records entity) :=
        ⟨List.nil_prefix, fun hn => by cases hn⟩
      exact hs.upTo limit v hv
    | ok found =>
      rw [attached_stays h entity _ ha]
      rw [ha] at hv
      exact (Listing.through_stays (record_stays h) [] found).upTo limit v hv
  | payload entity kind => exact payload?_stays h entity kind
  | scopes method limit => exact (Listing.upTo_ofExcept_stays (scopes_stays h method) limit).map _
  | scopeVariables scope limit =>
    exact (Run.upTo_stays ((variableRun_stays h scope).map _) limit).map _
  | methodVariables method limit => exact (Run.upTo_stays (variableRuns_stays h method) limit).map _
  | localVariable v => exact localVariable_stays h v

end

/-- A file that goes on behind an opened one opens to the same root, directory,
row counts and table places, and gives every answer that the shorter one gives. -/
theorem read_append_answers (file more : Block) (m : Image) (hm : read file = .ok m) :
    ∃ n, read (file ++ more) = .ok n ∧ n.root = m.root ∧ n.root.version = m.root.version ∧
      n.directory = m.directory ∧ n.debug = m.debug ∧ n.header = m.header ∧
      n.rowCounts = m.rowCounts ∧
      n.places = m.places ∧ n.sizes = m.sizes ∧
      ∀ (α : Type) (q : Question α) (v : α), m.ask q = .ok v → n.ask q = .ok v := by
  obtain ⟨n, hn, hg⟩ := read_grows (Block.grows_append file more) hm
  refine ⟨n, hn, hg.root, ?_, hg.directory, hg.debug, hg.header, rowCounts_eq hg, hg.places,
    sizes_eq hg, ?_⟩
  · rw [hg.root]
  · intro α q v hv
    exact ask_stays hg q v hv

/-- Bytes behind a file do not change what its module is linked to. -/
theorem sample_append_answers :
    ∃ m n, read Draft.sample.file = .ok m ∧ read (Draft.sample.file ++ #[0, 1, 2]) = .ok n ∧
    n.root = m.root ∧ n.places = m.places ∧
      n.ask (.payload Handle.ofModule .sourceLink) = .ok (some [1, 2]) := by
  obtain ⟨m, hm, ho⟩ := Draft.read_file Draft.wellFormed_sample
  have hask : m.ask (.payload Handle.ofModule .sourceLink) = .ok (some [1, 2]) :=
    (Draft.payload?_eq ho Draft.wellFormed_sample.payloads Handle.ofModule .sourceLink).trans rfl
  obtain ⟨n, hn, hroot, _, _, _, _, _, hplaces, _, hanswers⟩ :=
    read_append_answers Draft.sample.file #[0, 1, 2] m hm
  exact ⟨m, n, hm, hn, hroot, hplaces, hanswers _ _ _ hask⟩

end Image

end DebugMetadata
