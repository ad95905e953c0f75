import DebugMetadata.Image.Scope
import DebugMetadata.Proofs.Draft.Opening

/-!
# Variables of a written draft

Each scope is read as the run of the rows of its own variables, so the runs of
the scopes of a method give the names that the draft has for the method.
-/

namespace DebugMetadata

/-! ## Parts of lists -/

/-- The parts of a flattened list stand behind all parts before them. -/
theorem getElem?_flatMap_of_part {α β : Type} {f : α → List β} {as : List α} {a : α}
    {b : β} {i j : Nat}
    (ha : as[i]? = some a) (hb : (f a)[j]? = some b) :
    (as.flatMap f)[((as.take i).map fun a => (f a).length).sum + j]? = some b := by
  have hj : j < (f a).length := (List.getElem?_eq_some_iff.mp hb).1
  induction as generalizing i with
  | nil => cases ha
  | cons a' as ih =>
    cases i with
    | zero =>
      rw [List.getElem?_cons_zero, Option.some.injEq] at ha
      subst ha
      rw [List.take_zero, List.map_nil, List.sum_nil, Nat.zero_add, List.flatMap_cons,
        List.getElem?_append_left hj]
      exact hb
    | succ i =>
      rw [List.getElem?_cons_succ] at ha
      rw [List.take_succ_cons, List.map_cons, List.sum_cons, List.flatMap_cons, Nat.add_assoc,
        List.getElem?_append_right (Nat.le_add_right _ _), Nat.add_sub_cancel_left]
      exact ih ha

theorem mapM_range' {α β : Type} {f : Nat → Except Error α} {g : α → β} {bs : List β} {start : Nat}
    (h : ∀ j b, bs[j]? = some b → ∃ a, f (start + j) = .ok a ∧ g a = b) :
    ∃ as, (List.range' start bs.length).mapM f = .ok as ∧ as.map g = bs := by
  induction bs generalizing start with
  | nil => exact ⟨[], rfl, rfl⟩
  | cons b bs ih =>
    obtain ⟨a, ha, hg⟩ := h 0 b rfl
    obtain ⟨as, has, hgs⟩ := ih fun j b hb => by
      have := h (j + 1) b hb
      rwa [Nat.add_comm j, ← Nat.add_assoc] at this
    refine ⟨a :: as, ?_, ?_⟩
    · rw [List.length_cons, List.range'_succ, List.mapM_cons]
      rw [Nat.add_zero] at ha
      rw [ha, has]; rfl
    · rw [List.map_cons, hg, hgs]

namespace Draft

variable {d : Draft} {m : Image}

def before (d : Draft) (i : Nat) : Nat := ((d.scopes.take i).map (·.names.length)).sum

theorem before_succ {i : Nat} {s : Scope} (h : d.scopes[i]? = some s) :
    d.before (i + 1) = d.before i + s.names.length := by
  unfold before
  rw [List.take_add_one, h, List.map_append, List.sum_append]; rfl

theorem before_length : d.before d.scopes.length = d.locals.length := by
  unfold before
  rw [List.take_length, sum_names]

theorem getElem?_locals {i j : Nat} {s : Scope} {v : String × Nat} (hs : d.scopes[i]? = some s)
    (hv : s.names.zipIdx[j]? = some v) : d.locals[d.before i + j]? = some v := by
  have := getElem?_flatMap_of_part (f := fun s : Scope => s.names.zipIdx) hs hv
  simp only [List.length_zipIdx] at this
  exact this

theorem getElem?_scopeRows {i : Nat} {s : Scope} (h : d.scopes[i]? = some s) :
    d.scopeRows[i]? = some [s.method, 0, 1 + d.before i, 1, 0, 0x100] := by
  unfold scopeRows
  rw [List.getElem?_map, getElem?_zip_offsets _ _ h]; rfl

/-! ## Reading scopes and variables -/

section
variable (ho : d.IsOpened m)
include ho

theorem scopeRow_eq {i : Nat} {s : Scope} (h : d.scopes[i]? = some s) :
    (m.view .localScope).row ((i + 1 : Nat) : Int) =
      .ok (DebugTable.localScope.names.zip [s.method, 0, 1 + d.before i, 1, 0, 0x100]) := by
  have hw := ho.rows .localScope
  rw [getD_localScope] at hw
  rw [hw.row_eq (getElem?_scopeRows h), ho.columns]

theorem count_localScope : (m.view .localScope).count = d.scopes.length := by
  rw [(ho.rows .localScope).count, getD_localScope, length_scopeRows]

theorem count_localVariable : (m.view .localVariable).count = d.locals.length := by
  rw [(ho.rows .localVariable).count, getD_localVariable, length_variableRows]

theorem scopes_eq (r : Nat) : m.scopes (Handle.ofRow .methodDef r) =
    .ok (((d.scopes.zipIdx 1).filter fun p => p.1.method = r).map (·.2)) := by
  have hw := ho.rows .localScope
  rw [getD_localScope] at hw
  have hrows : (m.view .localScope).rows =
      .ok (TableView.numbered DebugTable.localScope.names d.scopeRows) := by
    rw [hw.rows_eq, ho.columns]
  have hzip : d.scopes.zipIdx 1 =
      ((d.scopes.zip (offsets (·.names.length) 1 d.scopes)).zipIdx 1).map fun p =>
        (p.1.1, p.2) := by
    conv => lhs; rw [← map_fst_zip_offsets (·.names.length) 1 d.scopes]
    rw [List.zipIdx_map]; rfl
  unfold Image.scopes
  rw [hrows, hzip, scopeRows, TableView.numbered_map]
  refine congrArg Except.ok ?_
  rw [List.filter_map, List.filter_map, List.map_map, List.map_map]
  refine congrArg (List.map _) (List.filter_congr fun p _ => ?_)
  show decide ((p.1.1.method : Int) = (r : Int)) = decide (p.1.1.method = r)
  exact decide_eq_decide.mpr Int.ofNat_inj

theorem variableRun_eq {i : Nat} {s : Scope} (h : d.scopes[i]? = some s) :
    m.variableRun (Handle.ofRow .localScope (i + 1)) =
      .ok ⟨1 + d.before i, 1 + d.before (i + 1)⟩ := by
  -- the run starts behind the variables of the scopes before it
  have hi : i < d.scopes.length := (List.getElem?_eq_some_iff.mp h).1
  have hrow : (Handle.ofRow .localScope (i + 1)).row = ((i + 1 : Nat) : Int) := rfl
  unfold Image.variableRun
  dsimp only
  rw [hrow, scopeRow_eq ho h, count_localScope ho, count_localVariable ho]
  by_cases hlast : i + 1 < d.scopes.length
  · have hnext : d.scopes[i + 1]? = some d.scopes[i + 1] := List.getElem?_eq_getElem hlast
    rw [show ((i + 1 : Nat) : Int) + 1 = ((i + 1 + 1 : Nat) : Int) by omega, scopeRow_eq ho hnext]
    refine (if_pos (show ((i + 1 : Nat) : Int) < d.scopes.length by omega)).trans ?_
    rfl
  · refine (if_neg (show ¬ ((i + 1 : Nat) : Int) < d.scopes.length by omega)).trans ?_
    rw [show i + 1 = d.scopes.length by omega, before_length, Nat.add_comm 1 d.locals.length]
    rfl

theorem variableRow_eq {k : Nat} {v : String × Nat} (h : d.locals[k]? = some v) :
    ∃ name, (v, name) ∈ d.locals.zip (offsets (fun v => (text v.1).length) 1 d.locals) ∧
      (m.view .localVariable).row ((1 + k : Nat) : Int) =
        .ok (DebugTable.localVariable.names.zip [0, v.2, name]) := by
  have hw := ho.rows .localVariable
  rw [getD_localVariable] at hw
  have hz := getElem?_zip_offsets (fun v => (text v.1).length) 1 h
  have hrow : d.variableRows[k]? =
      some [0, v.2, 1 + ((d.locals.take k).map fun v => (text v.1).length).sum] := by
    unfold variableRows
    rw [List.getElem?_map, hz]; rfl
  refine ⟨_, List.mem_of_getElem? hz, ?_⟩
  rw [Nat.add_comm 1 k, hw.row_eq hrow, ho.columns]

theorem holds_strings : m.strings.Holds 1 (d.locals.flatMap fun v => text v.1) := by
  have h := ho.strings
  unfold padded strings at h
  exact Block.holds_of_cons h

theorem localVariable_eq (hn : ∀ v ∈ d.locals, '\x00' ∉ v.1.toList) {k : Nat} {v : String × Nat}
    (h : d.locals[k]? = some v) :
    ∃ a, m.localVariable (Handle.ofRow .localVariable (1 + k)) = .ok a ∧ (a.name, a.index) = v := by
  obtain ⟨name, hm, hrow⟩ := variableRow_eq ho h
  have hname : Heap.string m.strings name = .ok v.1 :=
    Heap.string_of_holds (holds_of_mem_zip_offsets (holds_strings ho) hm)
      (hn v (List.mem_of_getElem? h))
  refine ⟨⟨Handle.ofRow .localVariable (1 + k), 0, v.2, v.1⟩, ?_, rfl⟩
  unfold Image.localVariable
  rw [show (Handle.ofRow .localVariable (1 + k)).row = ((1 + k : Nat) : Int) from rfl, hrow]
  have hget : Row.get (DebugTable.localVariable.names.zip [0, v.2, name]) .name = name := rfl
  simp only [bind, Except.bind]
  rw [hget, hname]
  rfl

/-! ## The variables of a method -/

theorem names_of_scope (hn : ∀ v ∈ d.locals, '\x00' ∉ v.1.toList) {i : Nat} {s : Scope}
    (h : d.scopes[i]? = some s) :
    ∃ run vs, m.variableRun (Handle.ofRow .localScope (i + 1)) = .ok run ∧
      (run.rows.mapM fun k => m.localVariable (Handle.ofRow .localVariable k)) = .ok vs ∧
      vs.map (fun v => (v.name, v.index)) = s.names.zipIdx := by
  have hread : ∀ j v, s.names.zipIdx[j]? = some v →
      ∃ a, m.localVariable (Handle.ofRow .localVariable (1 + d.before i + j)) = .ok a ∧
        (a.name, a.index) = v := by
    intro j v hv
    rw [Nat.add_assoc]
    exact localVariable_eq ho hn (getElem?_locals h hv)
  obtain ⟨vs, hvs, hmap⟩ :=
    mapM_range' (f := fun k => m.localVariable (Handle.ofRow .localVariable k))
    (g := fun v => (v.name, v.index)) hread
  refine ⟨_, vs, variableRun_eq ho h, ?_, hmap⟩
  have hlen : (Run.mk (1 + d.before i) (1 + d.before (i + 1))).length = s.names.zipIdx.length := by
    rw [before_succ h, List.length_zipIdx]
    show 1 + (d.before i + s.names.length) - (1 + d.before i) = s.names.length
    omega
  unfold Run.rows
  rw [hlen]; exact hvs

theorem names_of_scopes (hn : ∀ v ∈ d.locals, '\x00' ∉ v.1.toList) {ss : List (Scope × Nat)}
    (h : ∀ p ∈ ss, p ∈ d.scopes.zipIdx 1) :
    ∃ runs vs,
      ((ss.map (·.2)).mapM fun i => m.variableRun (Handle.ofRow .localScope i)) = .ok runs ∧
      ((Run.allRows runs).mapM fun k => m.localVariable (Handle.ofRow .localVariable k)) = .ok vs ∧
      vs.map (fun v => (v.name, v.index)) = ss.flatMap fun p => p.1.names.zipIdx := by
  induction ss with
  | nil => exact ⟨[], [], rfl, rfl, rfl⟩
  | cons p ss ih =>
    obtain ⟨runs, vs, hruns, hvs, hmap⟩ := ih fun p hp => h p (List.mem_cons_of_mem _ hp)
    obtain ⟨s, i⟩ := p
    obtain ⟨hi, hs⟩ := List.mem_zipIdx_iff_le_and_getElem?_sub.mp (h (s, i) (List.mem_cons_self ..))
    obtain ⟨run, vs', hrun, hvs', hmap'⟩ := names_of_scope ho hn hs
    rw [show i - 1 + 1 = i by omega] at hrun
    refine ⟨run :: runs, vs' ++ vs, ?_, ?_, ?_⟩
    · rw [List.map_cons, List.mapM_cons, hrun, hruns]; rfl
    · rw [show Run.allRows (run :: runs) = run.rows ++ Run.allRows runs from List.flatMap_cons,
        List.mapM_append, hvs', hvs]
      rfl
    · rw [List.map_append, hmap', hmap, List.flatMap_cons]

theorem variables_eq (hn : ∀ v ∈ d.locals, '\x00' ∉ v.1.toList) (r : Nat) :
    ∃ runs vs, m.variableRuns (Handle.ofRow .methodDef r) = .ok runs ∧
      ((Run.allRows runs).mapM fun k => m.localVariable (Handle.ofRow .localVariable k)) = .ok vs ∧
      vs.map (fun v => (v.name, v.index)) =
        (d.scopes.filter (·.method = r)).flatMap (·.names.zipIdx) := by
  have hmem : ∀ p ∈ (d.scopes.zipIdx 1).filter (fun p => p.1.method = r), p ∈ d.scopes.zipIdx 1 :=
    fun p hp => (List.mem_filter.mp hp).1
  obtain ⟨runs, vs, hruns, hvs, hmap⟩ := names_of_scopes ho hn hmem
  refine ⟨runs, vs, ?_, hvs, hmap.trans ?_⟩
  · unfold Image.variableRuns
    rw [scopes_eq ho]; exact hruns
  · have hscopes : ((d.scopes.zipIdx 1).filter fun p => p.1.method = r).map (·.1) =
        d.scopes.filter (·.method = r) := by
      conv => rhs; rw [← List.zipIdx_map_fst 1 d.scopes]
      rw [List.filter_map]; rfl
    rw [← hscopes, List.flatMap_map]

end

end Draft

end DebugMetadata
