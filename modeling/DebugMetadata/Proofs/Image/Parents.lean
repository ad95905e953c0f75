import DebugMetadata.Proofs.Image.Question
import DebugMetadata.Proofs.Image.Tables
import DebugMetadata.Proofs.Result
import DebugMetadata.Proofs.Table.Listed

/-!
# Parents of custom debug information

A coded parent names one row of one table. So every row of the table of custom
debug information belongs to one entity, or to none if its tag is not that of a
table, and the column is wide enough to name every row that there is
(`attached_once`).
-/

namespace DebugMetadata

namespace Parent

theorem lt_of_tag {tag : Nat} {t : Table} (ht : tables[tag]? = some t) : tag < 27 :=
  (List.getElem?_eq_some_iff.mp ht).1

theorem decode_eq_some_iff {n : Nat} {h : Handle} :
    decode n = some h ↔ ∃ t, tables[n % 32]? = some t ∧ Handle.ofRow t (n / 32) = h :=
      Option.map_eq_some_iff

theorem decode_isSome_iff {n : Nat} : (∃ h, decode n = some h) ↔ n % 32 < 27 := by
  constructor
  · rintro ⟨h, hd⟩
    obtain ⟨t, ht, _⟩ := decode_eq_some_iff.mp hd
    exact lt_of_tag ht
  · intro hlt
    exact ⟨_, decode_eq_some_iff.mpr ⟨_, List.getElem?_eq_getElem hlt, rfl⟩⟩

theorem decode_eq_iff {n tag : Nat} {t : Table} {r : Int} (ht : tables[tag]? = some t) :
    decode n = some ⟨t.number, r⟩ ↔ (n : Int) = 32 * r + tag := by
  have hlt := lt_of_tag ht
  rw [decode_eq_some_iff]
  constructor
  · rintro ⟨u, hu, h⟩
    obtain ⟨htable, hrow⟩ := Handle.mk.inj h
    rw [Table.number_injective (Int.ofNat_inj.mp htable), ← ht] at hu
    -- no table has two tags
    have hnodup : tables.Nodup := by decide
    have htag := (List.getElem?_inj (lt_of_tag (hu.trans ht)) hnodup).mp hu
    omega
  · intro h
    have htag : n % 32 = tag := by omega
    refine ⟨t, htag ▸ ht, ?_⟩
    unfold Handle.ofRow
    rw [show ((n / 32 : Nat) : Int) = r by omega]

theorem eq_number_of_decode {n : Nat} {h : Handle} (hd : decode n = some h) :
    ∃ t ∈ tables, h.table = t.number := by
  obtain ⟨t, ht, rfl⟩ := decode_eq_some_iff.mp hd
  exact ⟨t, List.mem_of_getElem? ht, rfl⟩

/-! ## Rows by parent -/

def rowsOf (rows : List (Nat × Row)) (h : Handle) : List (Nat × Row) :=
  rows.filter fun p => decode (p.2.get .parent) = some h

section
variable {rows : List (Nat × Row)} {h : Handle} {p : Nat × Row}

theorem mem_rowsOf : p ∈ rowsOf rows h ↔ p ∈ rows ∧ decode (p.2.get .parent) = some h := by
  unfold rowsOf
  rw [List.mem_filter, decide_eq_true_eq]

theorem rowsOf_eq_nil (hh : ∀ t ∈ tables, h.table ≠ t.number) : rowsOf rows h = [] := by
  apply List.filter_eq_nil_iff.mpr
  intro p _ hp
  obtain ⟨t, ht, heq⟩ := eq_number_of_decode (of_decide_eq_true hp)
  exact hh t ht heq

theorem existsUnique_mem_rowsOf (hp : p ∈ rows) (htag : p.2.get .parent % 32 < 27) :
    ∃! h, p ∈ rowsOf rows h := by
  obtain ⟨h, hd⟩ := decode_isSome_iff.mpr htag
  refine ⟨h, mem_rowsOf.mpr ⟨hp, hd⟩, ?_⟩
  intro h' hp'
  exact Option.some.inj ((mem_rowsOf.mp hp').2.symm.trans hd)

theorem flatMap_rowsOf_perm (hn : rows.Nodup) {hs : List Handle} (hhs : hs.Nodup)
    (hcover : ∀ p ∈ rows, p.2.get .parent % 32 < 27 → ∃ h ∈ hs, p ∈ rowsOf rows h) :
    (hs.flatMap (rowsOf rows)).Perm (rows.filter fun p => p.2.get .parent % 32 < 27) := by
  have hnodup : (hs.flatMap (rowsOf rows)).Nodup := by
    refine List.nodup_flatMap.mpr ⟨fun h _ => hn.filter _, List.Pairwise.imp ?_ hhs⟩
    intro h h' hne p hp hp'
    exact hne (Option.some.inj ((mem_rowsOf.mp hp).2.symm.trans (mem_rowsOf.mp hp').2))
  rw [List.perm_ext_iff_of_nodup hnodup (hn.filter _)]
  intro p
  rw [List.mem_flatMap, List.mem_filter, decide_eq_true_eq]
  constructor
  · rintro ⟨h, _, hp⟩
    obtain ⟨hp, hd⟩ := mem_rowsOf.mp hp
    exact ⟨hp, decode_isSome_iff.mp ⟨h, hd⟩⟩
  · rintro ⟨hp, htag⟩
    exact hcover p hp htag

theorem filterMap_ofRow? (rows : List (Nat × Row)) (h : Handle) :
    ((rows.filterMap fun p => Attachment.ofRow? p.2).filter fun a => a.parent == h) =
      (rowsOf rows h).map fun p => ⟨h, p.2.get .kind, p.2.get .value⟩ := by
  induction rows with
  | nil => rfl
  | cons p rows ih =>
    unfold rowsOf at ih ⊢
    cases hd : decode (p.2.get .parent) with
    | none =>
      have hrow : Attachment.ofRow? p.2 = none := by
        rw [Attachment.ofRow?, hd]; rfl
      rw [List.filterMap_cons_none (f := fun p : Nat × Row => Attachment.ofRow? p.2) hrow,
        List.filter_cons_of_neg (by simp [hd]), ih]
    | some parent =>
      have hrow : Attachment.ofRow? p.2 = some ⟨parent, p.2.get .kind, p.2.get .value⟩ := by
        rw [Attachment.ofRow?, hd]; rfl
      rw [List.filterMap_cons_some (f := fun p : Nat × Row => Attachment.ofRow? p.2) hrow]
      by_cases hp : parent = h
      · rw [List.filter_cons_of_pos (by simp [hp]), List.filter_cons_of_pos (by simp [hd, hp]),
          List.map_cons, ih, hp]
      · rw [List.filter_cons_of_neg (by simp [hp]), List.filter_cons_of_neg (by simp [hd, hp]), ih]

end

end Parent

namespace Image

theorem ask_attached {m : Image} {rows : List (Nat × Row)}
    (hrows : (m.view .customDebugInformation).rows = .ok rows)
    (h : Handle) : m.ask (.attached h none) =
      .ok ((Parent.rowsOf rows h).map fun p => ⟨h, p.2.get .kind, p.2.get .value⟩) := by
  show (Listing.ofExcept (m.attached h)).upTo none = _
  unfold attached
  rw [hrows, ← Parent.filterMap_ofRow?]; rfl

theorem lt_width_parent (m : Image) {tag r : Nat} {t : Table} (ht : Parent.tables[tag]? = some t)
    (hr : r ≤ m.rowCount t.number) (hlt : r < 2 ^ 27) :
      32 * r + tag < 256 ^ m.sizes.width .parent := by
  have htag := Parent.lt_of_tag ht
  rw [Sizes.width_eq_isWide]
  by_cases hwide : Content.parent.isWide m.sizes.heaps m.sizes.rows = true
  · rw [if_pos hwide]
    omega
  · rw [if_neg hwide]
    have hcount : ¬ 2048 ≤ m.rowCount t.number := by
      intro hc
      exact hwide (decide_eq_true ⟨t, List.mem_of_getElem? ht, hc⟩)
    omega

/-- An entity has the rows whose parent column holds its code, in table order, and
one of no coded table has none. Each row with the tag of a table is of one entity,
the others are of none, so nothing is lost or repeated when the rows of all
entities are put together. The column can hold the code of every entity that
there is. -/
theorem attached_once {m : Image} {rows : List (Nat × Row)}
    (hrows : (m.view .customDebugInformation).rows = .ok rows) :
    (∀ h, m.ask (.attached h none) =
      .ok ((Parent.rowsOf rows h).map fun p => ⟨h, p.2.get .kind, p.2.get .value⟩)) ∧
    (∀ (tag : Nat) (t : Table) (r : Int), Parent.tables[tag]? = some t →
      Parent.rowsOf rows ⟨t.number, r⟩ = rows.filter fun p =>
        (p.2.get .parent : Int) = 32 * r + tag) ∧
    (∀ h : Handle, (∀ t ∈ Parent.tables, h.table ≠ t.number) → Parent.rowsOf rows h = []) ∧
    (∀ p ∈ rows, p.2.get .parent % 32 < 27 → ∃! h, p ∈ Parent.rowsOf rows h) ∧
    (∀ p ∈ rows, 27 ≤ p.2.get .parent % 32 → ∀ h, p ∉ Parent.rowsOf rows h) ∧
    (∀ hs : List Handle, hs.Nodup →
      (∀ p ∈ rows, p.2.get .parent % 32 < 27 → ∃ h ∈ hs, p ∈ Parent.rowsOf rows h) →
      (hs.flatMap (Parent.rowsOf rows)).Perm (rows.filter fun p => p.2.get .parent % 32 < 27)) ∧
    ∀ (tag : Nat) (t : Table) (r : Nat), Parent.tables[tag]? = some t → r ≤ m.rowCount t.number →
      r < 2 ^ 27 →
      ∃ w, (Column.parent, w) ∈ (m.view .customDebugInformation).columns ∧
        32 * r + tag < 256 ^ w := by
  refine ⟨ask_attached hrows, ?_, fun h => Parent.rowsOf_eq_nil,
    fun p => Parent.existsUnique_mem_rowsOf, ?_,
      fun hs => Parent.flatMap_rowsOf_perm (TableView.nodup_rows hrows), ?_⟩
  · intro tag t r ht
    unfold Parent.rowsOf
    refine List.filter_congr fun p _ => ?_
    exact decide_eq_decide.mpr (Parent.decode_eq_iff ht)
  · intro p _ htag h hp
    exact Nat.not_lt_of_le htag (Parent.decode_isSome_iff.mp ⟨h, (Parent.mem_rowsOf.mp hp).2⟩)
  · intro tag t r ht hr hlt
    refine ⟨_, ?_, m.lt_width_parent ht hr hlt⟩
    rw [columns_view]
    exact List.mem_cons_self ..

/-- Two rows of the module around one of a method, and one with a tag of no table. -/
def fourRecords : TablesStream :=
  ⟨0, 2, 0, 0, 1, 0, 0, fun t =>
    match t with
    | .customDebugInformation => some [[39, 1, 1], [32, 1, 1], [95, 1, 1], [39, 2, 1]]
    | _ => none⟩

/-- The number of methods is the largest for which two bytes are enough. -/
def fourRecordsFile : Block := fourRecords.bareFile [(6, 2047)]

theorem fourRecordsFile_attached_once : ∃ m rows, Image.read fourRecordsFile = .ok m ∧
    (m.view .customDebugInformation).rows = .ok rows ∧
    TableView.columnOf .parent rows = [39, 32, 95, 39] ∧
    m.ask (.attached Handle.ofModule none) =
      .ok [⟨Handle.ofModule, 1, 1⟩, ⟨Handle.ofModule, 2, 1⟩] ∧
    ([Handle.ofModule, Handle.ofRow .methodDef 1].flatMap (Parent.rowsOf rows)).Perm
      (rows.filter fun p => p.2.get .parent % 32 < 27) ∧
    m.rowCount Table.methodDef.number = 2047 ∧
    ∃ w, (Column.parent, w) ∈ (m.view .customDebugInformation).columns ∧ 32 * 2047 < 256 ^ w := by
  have hany : ((Image.read fourRecordsFile).toOption.any fun m =>
      (m.view .customDebugInformation).rows.toOption =
        some (TableView.numbered DebugTable.customDebugInformation.names
        [[39, 1, 1], [32, 1, 1], [95, 1, 1], [39, 2, 1]]) ∧
          m.rowCount Table.methodDef.number = 2047) = true := by
    decide +kernel
  obtain ⟨m, hm, hall⟩ := exists_ok_of_any hany
  obtain ⟨hrows, hcount⟩ := of_decide_eq_true hall
  have hrows := eq_ok_of_toOption hrows
  obtain ⟨hask, _, _, _, _, hperm, hfits⟩ := attached_once hrows
  have hcover := hperm [Handle.ofModule, Handle.ofRow .methodDef 1] (by decide) (by decide)
  obtain ⟨w, hw, hlt⟩ := hfits 0 .methodDef 2047 rfl (Nat.le_of_eq hcount.symm) (by decide)
  exact ⟨m, _, hm, hrows, rfl, (hask _).trans rfl, hcover, hcount, w, hw, hlt⟩

end Image

end DebugMetadata
