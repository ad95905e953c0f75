import DebugMetadata.Proofs.Draft.Variables
import DebugMetadata.Proofs.Image.Question
import DebugMetadata.Proofs.Result
import DebugMetadata.Proofs.Table.Listed

/-!
# Runs of variables

A run starts at the variable that its scope names and stops at the one that the
next scope names, the last run behind the last variable. If these bounds do not
decrease, then the runs cover the variables from the first bound on, each
variable once (`variables_partitioned`).
-/

namespace DebugMetadata

/-! ## Runs of rows -/

theorem Run.rows_append {a b c : Nat} (hab : a ≤ b) (hbc : b ≤ c) :
    (Run.mk a b).rows ++ List.range' b (c - b) = List.range' a (c - a) := by
  have hsplit : c - a = (b - a) + (c - b) := by omega
  rw [hsplit, ← List.range'_append_1, Nat.add_sub_cancel' hab]
  rfl

/-- Runs between bounds that do not decrease follow each other without a gap. -/
theorem Run.flatMap_rows {bound : Nat → Nat} {start count : Nat}
    (h : ∀ i, start ≤ i → i < start + count → bound i ≤ bound (i + 1)) :
    bound start ≤ bound (start + count) ∧
      ((List.range' start count).flatMap fun i => (Run.mk (bound i) (bound (i + 1))).rows) =
        List.range' (bound start) (bound (start + count) - bound start) := by
  induction count generalizing start with
  | zero => simp
  | succ count ih =>
    have hfirst := h start (Nat.le_refl _) (by omega)
    have hrest : ∀ i, start + 1 ≤ i → i < start + 1 + count → bound i ≤ bound (i + 1) :=
      fun i h1 h2 => h i (by omega) (by omega)
    obtain ⟨hle, heq⟩ := ih hrest
    rw [Nat.add_assoc, Nat.add_comm 1 count] at hle heq
    refine ⟨Nat.le_trans hfirst hle, ?_⟩
    rw [List.range'_succ, List.flatMap_cons, heq, Run.rows_append hfirst hle]

namespace Image

/-! ## Bounds -/

section
variable (m : Image)

/-- The variable that a scope names. Behind the last scope this is the number
behind the last variable. -/
def variableBound (i : Nat) : Nat :=
  if i ≤ (m.view .localScope).count then ((m.view .localScope).rowAt i).get .variableList
  else (m.view .localVariable).count + 1

def runOf (i : Nat) : Run := ⟨m.variableBound i, m.variableBound (i + 1)⟩

/-- The scopes of the method with a row number, in table order. -/
def scopesOf (r : Int) : List Nat :=
  (List.range' 1 (m.view .localScope).count).filter fun i =>
    (((m.view .localScope).rowAt i).get .method : Int) = r

def variablesOf (r : Int) : List Nat := (m.scopesOf r).flatMap fun i => (m.runOf i).rows

theorem allRows_map_runOf (r : Int) :
    Run.allRows ((m.scopesOf r).map m.runOf) = m.variablesOf r := by
  unfold Run.allRows variablesOf
  rw [List.flatMap_map]

theorem mem_scopesOf {r : Int} {i : Nat} : i ∈ m.scopesOf r ↔
    (1 ≤ i ∧ i ≤ (m.view .localScope).count) ∧ r = ((m.view .localScope).rowAt i).get .method := by
  unfold scopesOf
  rw [List.mem_filter, List.mem_range'_1, decide_eq_true_eq]
  constructor
  · rintro ⟨h, rfl⟩
    exact ⟨by omega, rfl⟩
  · rintro ⟨h, rfl⟩
    exact ⟨by omega, rfl⟩

theorem pairwise_scopesOf (r : Int) : (m.scopesOf r).Pairwise (· < ·) :=
  List.Pairwise.filter _ List.pairwise_lt_range'

end

section
variable {m : Image} {i : Nat}

theorem runOf_of_next (h : i + 1 ≤ (m.view .localScope).count) : m.runOf i =
    ⟨((m.view .localScope).rowAt i).get .variableList,
      ((m.view .localScope).rowAt (i + 1)).get .variableList⟩ := by
  unfold runOf variableBound
  rw [if_pos h, if_pos (Nat.le_of_succ_le h)]

theorem runOf_of_last (h : i = (m.view .localScope).count) : m.runOf i =
    ⟨((m.view .localScope).rowAt i).get .variableList, (m.view .localVariable).count + 1⟩ := by
  unfold runOf variableBound
  rw [if_pos (Nat.le_of_eq h), if_neg (by omega)]

theorem variableRun_eq_ok_iff {scope : Handle} {r : Run} :
    m.variableRun scope = .ok r ↔ ∃ i : Nat, scope.row = i ∧ i ≤ (m.view .localScope).count ∧
      (m.view .localScope).row i = .ok ((m.view .localScope).rowAt i) ∧
      (i + 1 ≤ (m.view .localScope).count →
        (m.view .localScope).row ((i + 1 : Nat) : Int) = .ok ((m.view .localScope).rowAt (i + 1))) ∧
      r = m.runOf i := by
  unfold variableRun
  dsimp only
  constructor
  · intro h
    obtain ⟨row, hrow, h⟩ := bind_eq_ok_iff.mp h
    obtain ⟨i, hi, ⟨_, h2⟩, _, rfl⟩ := TableView.row_eq_ok_iff.mp hrow
    rw [hi] at hrow h
    refine ⟨i, hi, h2, hrow, ?_⟩
    by_cases hnext : i + 1 ≤ (m.view .localScope).count
    · rw [if_pos (by omega)] at h
      obtain ⟨next, hrow', h⟩ := bind_eq_ok_iff.mp h
      obtain ⟨j, hj, _, _, rfl⟩ := TableView.row_eq_ok_iff.mp hrow'
      rw [hj] at hrow'
      obtain rfl : j = i + 1 := by omega
      exact ⟨fun _ => hrow', (Except.ok.inj h).symm.trans (runOf_of_next hnext).symm⟩
    · rw [if_neg (by omega)] at h
      exact ⟨fun h' => absurd h' hnext,
        (Except.ok.inj h).symm.trans (runOf_of_last (by omega)).symm⟩
  · rintro ⟨i, hi, h2, hrow, hrow', rfl⟩
    rw [hi, hrow]
    by_cases hnext : i + 1 ≤ (m.view .localScope).count
    · rw [show (i : Int) + 1 = ((i + 1 : Nat) : Int) by omega, hrow' hnext, runOf_of_next hnext]
      exact if_pos (by omega)
    · rw [runOf_of_last (by omega)]
      exact if_neg (by omega)

end

/-! ## Scopes that can be listed -/

section
variable {m : Image} {rows : List (Nat × Row)} (h : (m.view .localScope).rows = .ok rows)
include h

theorem scopes_of_rows (method : Handle) : m.scopes method = .ok (m.scopesOf method.row) := by
  unfold scopes
  rw [h, TableView.rows_eq_map h]
  refine congrArg Except.ok ?_
  rw [List.filter_map, List.map_map]
  exact List.map_id _

theorem variableRun_of_rows {i : Nat} (h1 : 1 ≤ i) (h2 : i ≤ (m.view .localScope).count) :
    m.variableRun (Handle.ofRow .localScope i) = .ok (m.runOf i) :=
  variableRun_eq_ok_iff.mpr ⟨i, rfl, h2, TableView.row_of_rows h h1 h2,
    fun hnext => TableView.row_of_rows h (Nat.le_add_left 1 i) hnext, rfl⟩

theorem variableRuns_of_rows (method : Handle) :
    m.variableRuns method = .ok ((m.scopesOf method.row).map m.runOf) := by
  unfold variableRuns
  rw [scopes_of_rows h]
  apply mapM_of_ok
  intro i hi
  obtain ⟨⟨h1, h2⟩, _⟩ := m.mem_scopesOf.mp hi
  exact variableRun_of_rows h h1 h2

theorem ask_scopes (method : Handle) :
    m.ask (.scopes method none) = .ok ((m.scopesOf method.row).map (Handle.ofRow .localScope)) := by
  show Except.map _ (Listing.upTo none (Listing.ofExcept (m.scopes method))) = _
  rw [scopes_of_rows h]; rfl

theorem ask_scopeVariables {i : Nat} (h1 : 1 ≤ i) (h2 : i ≤ (m.view .localScope).count) :
    m.ask (.scopeVariables (Handle.ofRow .localScope i) none) =
      .ok ((m.runOf i).rows.map (Handle.ofRow .localVariable)) := by
  show Except.map _ (Run.upTo none (Except.map _ (m.variableRun (Handle.ofRow .localScope i)))) = _
  rw [variableRun_of_rows h h1 h2]
  simp only [Run.upTo, Except.map, Run.allRows, List.flatMap_cons, List.flatMap_nil,
    List.append_nil]

theorem ask_methodVariables (method : Handle) :
    m.ask (.methodVariables method none) =
      .ok ((m.variablesOf method.row).map (Handle.ofRow .localVariable)) := by
  show Except.map _ (Run.upTo none (m.variableRuns method)) = _
  rw [variableRuns_of_rows h]
  simp only [Run.upTo, Except.map, Run.allRows, List.flatMap_map, variablesOf]

end

/-! ## Scopes in the order of their variables -/

section
variable {m : Image} {rows : List (Nat × Row)} (hrows : (m.view .localScope).rows = .ok rows)
    {first : Nat}
  (hsorted : (TableView.columnOf .variableList rows).Pairwise (· ≤ ·))
  (hfirst : (TableView.columnOf .variableList rows).head? = some first)
  (hlast : ∀ last, (TableView.columnOf .variableList rows).getLast? = some last →
    last ≤ (m.view .localVariable).count + 1)
include hrows hsorted hlast

theorem variableBound_le_succ {i : Nat} (h1 : 1 ≤ i) (h2 : i < 1 + (m.view .localScope).count) :
    m.variableBound i ≤ m.variableBound (i + 1) := by
  rw [TableView.columnOf_eq_map hrows] at hsorted hlast
  unfold variableBound
  rw [if_pos (by omega)]
  by_cases hnext : i + 1 ≤ (m.view .localScope).count
  · rw [if_pos hnext]
    have hle :=
      List.pairwise_iff_getElem.mp hsorted (i - 1) i (by simp; omega) (by simp; omega) (by omega)
    simp only [List.getElem_map, List.getElem_range', Nat.one_mul] at hle
    rwa [Nat.add_sub_cancel' h1, Nat.add_comm 1 i] at hle
  · rw [if_neg hnext]
    apply hlast
    rw [List.getLast?_map, List.getLast?_range', if_neg (by omega),
      show 1 + (m.view .localScope).count - 1 = i by omega]
    rfl

include hfirst

theorem flatMap_runOf :
    ((List.range' 1 (m.view .localScope).count).flatMap fun i => (m.runOf i).rows) =
    List.range' first ((m.view .localVariable).count + 1 - first) := by
  have hmono : ∀ i, 1 ≤ i → i < 1 + (m.view .localScope).count →
    m.variableBound i ≤ m.variableBound (i + 1) :=
    fun i h1 h2 => variableBound_le_succ hrows hsorted hlast h1 h2
  obtain ⟨_, hflat⟩ := Run.flatMap_rows hmono
  have hstart : m.variableBound 1 = first := by
    rw [TableView.columnOf_eq_map hrows, List.head?_map, List.head?_range'] at hfirst
    by_cases hz : (m.view .localScope).count = 0
    · rw [if_pos hz] at hfirst; cases hfirst
    · rw [if_neg hz] at hfirst
      unfold variableBound
      rw [if_pos (by omega)]
      exact Option.some.inj hfirst
  have hstop :
      m.variableBound (1 + (m.view .localScope).count) = (m.view .localVariable).count + 1 := by
    unfold variableBound
    rw [if_neg (by omega)]
  rw [hstart, hstop] at hflat
  exact hflat

theorem pairwise_variablesOf (r : Int) : (m.variablesOf r).Pairwise (· < ·) := by
  have hsub :
      (m.variablesOf r).Sublist
        (List.range' first ((m.view .localVariable).count + 1 - first)) := by
    rw [← flatMap_runOf hrows hsorted hfirst hlast]
    exact List.filter_sublist.flatMap _
  exact List.Pairwise.sublist hsub (List.pairwise_lt_range' 1)

theorem disjoint_variablesOf {r r' : Int} (hne : r ≠ r') :
    (m.variablesOf r).Disjoint (m.variablesOf r') := by
  intro k hk hk'
  obtain ⟨i, hi, hki⟩ := List.mem_flatMap.mp hk
  obtain ⟨j, hj, hkj⟩ := List.mem_flatMap.mp hk'
  obtain ⟨hi, hri⟩ := m.mem_scopesOf.mp hi
  obtain ⟨hj, hrj⟩ := m.mem_scopesOf.mp hj
  -- no variable stands in the runs of two scopes, as no number comes twice in the range
  have hnodup :
      ((List.range' 1 (m.view .localScope).count).flatMap fun i => (m.runOf i).rows).Nodup := by
    rw [flatMap_runOf hrows hsorted hfirst hlast]
    exact List.nodup_range'
  have hij : i ≠ j := by
    rintro rfl
    exact hne (hri.trans hrj.symm)
  have : Std.Symm (Function.onFun List.Disjoint fun i => (m.runOf i).rows) := ⟨fun _ _ h => h.symm⟩
  exact (List.nodup_flatMap.mp hnodup).2.forall (List.mem_range'_1.mpr (by omega))
    (List.mem_range'_1.mpr (by omega))
    hij hki hkj

theorem mem_variablesOf {k : Nat} :
    (∃ r, k ∈ m.variablesOf r) ↔ first ≤ k ∧ k ≤ (m.view .localVariable).count := by
  have hrange : k ∈ ((List.range' 1 (m.view .localScope).count).flatMap fun i => (m.runOf i).rows) ↔
      first ≤ k ∧ k ≤ (m.view .localVariable).count := by
    rw [flatMap_runOf hrows hsorted hfirst hlast, List.mem_range'_1]
    omega
  rw [← hrange]
  constructor
  · rintro ⟨r, hk⟩
    exact (List.filter_sublist.flatMap _).subset hk
  · intro hk
    obtain ⟨i, hi, hk⟩ := List.mem_flatMap.mp hk
    rw [List.mem_range'_1] at hi
    exact ⟨_, List.mem_flatMap.mpr ⟨i, m.mem_scopesOf.mpr ⟨by omega, rfl⟩, hk⟩⟩

/-- The variables of all scopes, in table order, are those from the first one
that a scope names up to the last one that there is. Every scope belongs to one
method, and every such variable to the method of its scope and to no other. -/
theorem variables_partitioned :
    (∃ lists, (rows.mapM fun p => m.ask (.scopeVariables (Handle.ofRow .localScope p.1) none)) = .ok lists ∧
      lists.flatten =
        (List.range' first ((m.view .localVariable).count + 1 - first)).map
          (Handle.ofRow .localVariable)) ∧
    ∃ scopes locals : Int → List Nat,
      (∀ method, m.ask (.scopes method none) = .ok ((scopes method.row).map (Handle.ofRow .localScope)) ∧
        m.ask (.methodVariables method none) =
          .ok ((locals method.row).map (Handle.ofRow .localVariable))) ∧
      (∀ p ∈ rows, ∀ r, p.1 ∈ scopes r ↔ r = p.2.get .method) ∧
      (∀ r, (scopes r).Pairwise (· < ·)) ∧
      (∀ r, (locals r).Pairwise (· < ·)) ∧
      (∀ r r', r ≠ r' → (locals r).Disjoint (locals r')) ∧
      ∀ k, (∃ r, k ∈ locals r) ↔ first ≤ k ∧ k ≤ (m.view .localVariable).count := by
  constructor
  · refine ⟨rows.map fun p => (m.runOf p.1).rows.map (Handle.ofRow .localVariable),
      mapM_of_ok ?_, ?_⟩
    · intro p hp
      obtain ⟨⟨h1, h2⟩, _⟩ := (TableView.mem_rows_iff hrows).mp hp
      exact ask_scopeVariables hrows h1 h2
    · rw [← flatMap_runOf hrows hsorted hfirst hlast, ← List.flatMap_def, List.map_flatMap]
      conv => lhs; rw [TableView.rows_eq_map hrows, List.flatMap_map]
  · refine ⟨m.scopesOf, m.variablesOf,
      fun method => ⟨ask_scopes hrows method, ask_methodVariables hrows method⟩, ?_,
      m.pairwise_scopesOf, pairwise_variablesOf hrows hsorted hfirst hlast,
      fun _ _ => disjoint_variablesOf hrows hsorted hfirst hlast,
      fun _ => mem_variablesOf hrows hsorted hfirst hlast⟩
    intro p hp r
    obtain ⟨hrange, hrow⟩ := (TableView.mem_rows_iff hrows).mp hp
    rw [m.mem_scopesOf, hrow, and_iff_right hrange]

end

/-- The second scope has no variables, and stands between two scopes of another
method. -/
theorem sample_variables_partitioned : ∃ m rows lists, Image.read Draft.sample.file = .ok m ∧
    (m.view .localScope).rows = .ok rows ∧ TableView.columnOf .variableList rows = [1, 3, 3] ∧
    (m.view .localVariable).count = 3 ∧
    (rows.mapM fun p => m.ask (.scopeVariables (Handle.ofRow .localScope p.1) none)) = .ok lists ∧
    lists.flatten = [1, 2, 3].map (Handle.ofRow .localVariable) := by
  obtain ⟨m, hm, ho⟩ := Draft.read_file Draft.wellFormed_sample
  have hrows := (ho.rows .localScope).rows_eq
  rw [ho.columns] at hrows
  have hcolumn : TableView.columnOf .variableList (TableView.numbered DebugTable.localScope.names
      ((Draft.sample.rows? .localScope).getD [])) = [1, 3, 3] := by rfl
  have hcount : (m.view .localVariable).count = 3 := Draft.count_localVariable ho
  have hsorted := hcolumn ▸ (by decide : [1, 3, 3].Pairwise (· ≤ ·))
  have hfirst := congrArg List.head? hcolumn
  obtain ⟨⟨lists, hlists, hflat⟩, _⟩ := variables_partitioned hrows hsorted hfirst (by
    intro last hl
    rw [hcolumn] at hl
    cases hl
    rw [hcount]
    decide)
  rw [hcount] at hflat
  exact ⟨m, _, lists, hm, hrows, hcolumn, hcount, hlists, hflat⟩

end Image

end DebugMetadata
