import DebugMetadata.Proofs.Failure
import DebugMetadata.Proofs.Image.Variables

/-!
# Variables that the table does not have

The run of a scope stops where the next scope says, even behind the end of the
table, and starts where its own scope says, even before the first row. A session
finds a variable at its position in such runs and does not ask whether the table
has it (`variables_exist_iff`).
-/

namespace DebugMetadata

namespace Image

section
variable (m : Image)

def HasVariable (h : Handle) : Prop :=
  h.table = Table.localVariable.number ∧ 1 ≤ h.row ∧ h.row ≤ (m.view .localVariable).count

/-- The run of a scope is empty or keeps to the rows that there are. -/
def RunInside (i : Nat) : Prop :=
  m.variableBound (i + 1) ≤ m.variableBound i ∨
    1 ≤ m.variableBound i ∧ m.variableBound (i + 1) ≤ (m.view .localVariable).count + 1

instance (h : Handle) : Decidable (m.HasVariable h) := inferInstanceAs (Decidable (_ ∧ _))

instance (i : Nat) : Decidable (m.RunInside i) := inferInstanceAs (Decidable (_ ∨ _))

theorem hasVariable_ofRow_iff {k : Nat} :
    m.HasVariable (Handle.ofRow .localVariable k) ↔ 1 ≤ k ∧ k ≤ (m.view .localVariable).count := by
  have htable : (Handle.ofRow .localVariable k).table = Table.localVariable.number := rfl
  have hrow : (Handle.ofRow .localVariable k).row = (k : Int) := rfl
  unfold HasVariable
  rw [and_iff_right htable, hrow]
  omega

theorem hasVariables_runOf_iff {i : Nat} :
    (∀ h ∈ (m.runOf i).rows.map (Handle.ofRow .localVariable), m.HasVariable h) ↔
      m.RunInside i := by
  rw [List.forall_mem_map]
  simp only [hasVariable_ofRow_iff, Run.rows, Run.length, runOf, List.mem_range'_1]
  unfold RunInside
  constructor
  · intro h
    by_cases hempty : m.variableBound (i + 1) ≤ m.variableBound i
    · exact .inl hempty
    · have hfirst := h (m.variableBound i) (by omega)
      have hlast := h (m.variableBound (i + 1) - 1) (by omega)
      exact .inr (by omega)
  · intro h k hk
    omega

theorem hasVariables_variablesOf_iff {r : Int} :
    (∀ h ∈ (m.variablesOf r).map (Handle.ofRow .localVariable), m.HasVariable h) ↔
      ∀ i ∈ m.scopesOf r, m.RunInside i := by
  simp only [← hasVariables_runOf_iff]
  unfold variablesOf
  rw [List.map_flatMap]
  constructor
  · intro h i hi v hv
    exact h v (List.mem_flatMap.mpr ⟨i, hi, hv⟩)
  · intro h v hv
    obtain ⟨i, hi, hv⟩ := List.mem_flatMap.mp hv
    exact h i hi v hv

end

/-! ## Runs that can be read -/

section
variable {m : Image}

theorem ask_scopeVariables_eq_ok {scope : Handle} {hs : List Handle}
    (h : m.ask (.scopeVariables scope none) = .ok hs) :
    hs = (m.runOf scope.row.toNat).rows.map (Handle.ofRow .localVariable) := by
  obtain ⟨ks, hks, rfl⟩ := map_eq_ok_iff.mp h
  obtain ⟨runs, hruns, rfl⟩ := map_eq_ok_iff.mp hks
  obtain ⟨r, hr, rfl⟩ := map_eq_ok_iff.mp hruns
  obtain ⟨i, hi, _, _, _, rfl⟩ := variableRun_eq_ok_iff.mp hr
  rw [hi, Int.toNat_natCast, Run.allRows, List.flatMap_cons, List.flatMap_nil, List.append_nil]

theorem rows_of_variableRuns {method : Handle} {runs : List Run}
    (h : m.variableRuns method = .ok runs) : ∃ rows, (m.view .localScope).rows = .ok rows := by
  obtain ⟨is, his, _⟩ := bind_eq_ok_iff.mp h
  obtain ⟨rows, hrows, _⟩ := bind_eq_ok_iff.mp his
  exact ⟨rows, hrows⟩

theorem rows_of_ask_methodVariables {method : Handle} {hs : List Handle}
    (h : m.ask (.methodVariables method none) = .ok hs) :
    ∃ rows, (m.view .localScope).rows = .ok rows := by
  obtain ⟨ks, h, _⟩ := map_eq_ok_iff.mp h
  obtain ⟨runs, h, _⟩ := map_eq_ok_iff.mp h
  exact rows_of_variableRuns h

end

end Image

namespace Session

/-! ## Names of the variable at a position -/

section
variable {m : Image} {token : Int} {method : Handle} {i : Nat}

theorem tupleNamesOf_of_rows {rows : List (Nat × Row)} (h : (m.view .localScope).rows = .ok rows) :
    tupleNamesOf m token method i =
      match (m.variablesOf method.row)[i]? with
      | none => .error (.noSuchVariable token i)
      | some k =>
        m.payload? (Handle.ofRow .localVariable k) .tupleElementNames >>=
          decoded TupleNames.decode := by
  unfold tupleNamesOf
  rw [Image.variableRuns_of_rows h, ← m.allRows_map_runOf, ← Run.nth?_eq_getElem?]; rfl

theorem tupleNamesOf_eq_ok {names : Option (List (Option String))}
    (h : tupleNamesOf m token method i = .ok names) :
    ∃ rows k, (m.view .localScope).rows = .ok rows ∧ (m.variablesOf method.row)[i]? = some k ∧
      m.payload? (Handle.ofRow .localVariable k) .tupleElementNames >>=
        decoded TupleNames.decode = .ok names := by
  obtain ⟨runs, hruns, _⟩ := bind_eq_ok_iff.mp h
  obtain ⟨rows, hrows⟩ := Image.rows_of_variableRuns hruns
  rw [tupleNamesOf_of_rows hrows] at h
  cases hk : (m.variablesOf method.row)[i]? with
  | none => rw [hk] at h; cases h
  | some k =>
    rw [hk] at h
    exact ⟨rows, k, hrows, rfl, h⟩

theorem tupleNamesOf_variableNotFound_iff :
    (∃ e, tupleNamesOf m token method i = .error e ∧ e.kind = .variableNotFound) ↔
      ∃ hs, m.ask (.methodVariables method none) = .ok hs ∧ hs.length ≤ i := by
  cases hr : m.variableRuns method with
  | error e =>
    refine iff_of_false ?_ ?_
    · rintro ⟨e', he, hk⟩
      unfold tupleNamesOf at he
      rw [hr] at he
      cases he
      rw [List.mem_singleton.mp (m.variableRuns_failsOnly method e hr)] at hk
      cases hk
    · rintro ⟨hs, h, _⟩
      obtain ⟨rows, hrows⟩ := Image.rows_of_ask_methodVariables h
      rw [Image.variableRuns_of_rows hrows] at hr
      cases hr
  | ok runs =>
    obtain ⟨rows, hrows⟩ := Image.rows_of_variableRuns hr
    rw [tupleNamesOf_of_rows hrows, Image.ask_methodVariables hrows]
    cases hk : (m.variablesOf method.row)[i]? with
    | none =>
      refine iff_of_true ⟨_, rfl, rfl⟩ ⟨_, rfl, ?_⟩
      rw [List.length_map]
      exact List.getElem?_eq_none_iff.mp hk
    | some k =>
      refine iff_of_false ?_ ?_
      · -- a variable at the position, so only its names can fail
        rintro ⟨e, he, hkind⟩
        have hnames : FailsOnly [.invalidMetadata, .malformedBlob]
            (m.payload? (Handle.ofRow .localVariable k) .tupleElementNames >>= decoded TupleNames.decode) :=
          ((m.payload?_failsOnly _ _).mono (by simp)).bind fun payload =>
            (decoded_failsOnly TupleNames.decode_failsOnly payload).mono (by simp)
        have hmem := hnames e he
        rw [hkind] at hmem
        simp at hmem
      · rintro ⟨hs, h, hle⟩
        cases h
        rw [List.length_map] at hle
        exact absurd (List.getElem?_eq_some_iff.mp hk).1 (Nat.not_lt_of_le hle)

theorem step_tupleNames {s : State} {file : Block} (hs : s.file = some file)
    (hm : Image.read file = .ok m)
    (ht : Handle.ofMethodToken token = .ok method) :
    (step s (.tupleNames token (.ofNat i))).2 =
      (tupleNamesOf m token method i).map .tupleNames := by
  simp only [step, ht, answer, opened, hs, hm]

end

/-- The variables of a scope, and those of a method, all exist exactly if the runs
that they come from keep to the table. A session fails for a missing variable
exactly if the method has none at the position, and answers for the one that is
there, which exists if the runs keep to the table. -/
theorem variables_exist_iff (m : Image) :
    (∀ scope hs, m.ask (.scopeVariables scope none) = .ok hs →
      ((∀ h ∈ hs, m.HasVariable h) ↔ m.RunInside scope.row.toNat)) ∧
    (∀ method is hs, m.scopes method = .ok is → m.ask (.methodVariables method none) = .ok hs →
      ((∀ h ∈ hs, m.HasVariable h) ↔ ∀ i ∈ is, m.RunInside i)) ∧
    ∀ (s : State) file token method index, s.file = some file → Image.read file = .ok m →
      Handle.ofMethodToken token = .ok method →
      ((∃ e, (step s (.tupleNames token index)).2 = .error e ∧ e.kind = .variableNotFound) ↔
        index < 0 ∨ ∃ hs, m.ask (.methodVariables method none) = .ok hs ∧ hs.length ≤ index) ∧
      ∀ names, (step s (.tupleNames token index)).2 = .ok (.tupleNames names) →
        ∃ is hs h, m.scopes method = .ok is ∧ m.ask (.methodVariables method none) = .ok hs ∧
          0 ≤ index ∧ hs[index.toNat]? = some h ∧
          m.payload? h .tupleElementNames >>= decoded TupleNames.decode = .ok names ∧
          ((∀ i ∈ is, m.RunInside i) → m.HasVariable h) := by
  have hmethod : ∀ method is hs, m.scopes method = .ok is →
    m.ask (.methodVariables method none) = .ok hs →
      ((∀ h ∈ hs, m.HasVariable h) ↔ ∀ i ∈ is, m.RunInside i) := by
    intro method is hs his hhs
    obtain ⟨rows, hrows⟩ := Image.rows_of_ask_methodVariables hhs
    rw [Image.scopes_of_rows hrows] at his
    rw [Image.ask_methodVariables hrows] at hhs
    cases his
    cases hhs
    exact m.hasVariables_variablesOf_iff
  refine ⟨?_, hmethod, ?_⟩
  · intro scope hs h
    rw [Image.ask_scopeVariables_eq_ok h]
    exact m.hasVariables_runOf_iff
  · intro s file token method index hs hm ht
    -- a negative index is refused before the file is opened
    cases index with
    | negSucc i =>
      have hstep : (step s (.tupleNames token (.negSucc i))).2 =
          .error (.negativeVariable (.negSucc i)) := by
        simp only [step, ht]
      rw [hstep]
      refine ⟨iff_of_true ⟨_, rfl, rfl⟩ (.inl (Int.negSucc_lt_zero i)), ?_⟩
      intro names h
      cases h
    | ofNat i =>
      rw [step_tupleNames hs hm ht]
      constructor
      · have hneg : ¬ Int.ofNat i < 0 := Int.not_lt.mpr (Int.natCast_nonneg i)
        rw [or_iff_right hneg]
        simp only [map_eq_error_iff, tupleNamesOf_variableNotFound_iff, Int.ofNat_eq_natCast,
          Int.ofNat_le]
      · intro names h
        obtain ⟨names', hn, hnames⟩ := map_eq_ok_iff.mp h
        cases hnames
        obtain ⟨rows, k, hrows, hk, hpayload⟩ := tupleNamesOf_eq_ok hn
        have his := Image.scopes_of_rows hrows method
        have hhs := Image.ask_methodVariables hrows method
        have hget : ((m.variablesOf method.row).map (Handle.ofRow .localVariable))[i]? =
            some (Handle.ofRow .localVariable k) := by
          rw [List.getElem?_map, hk]; rfl
        refine ⟨_, _, _, his, hhs, Int.natCast_nonneg i, hget, hpayload, ?_⟩
        intro hinside
        exact (hmethod method _ _ his hhs).mpr hinside _ (List.mem_of_getElem? hget)

/-- Two methods with a scope each, and one variable. The first scope starts at
that variable, the second wherever it is told to. -/
def twoScopes (second : Nat) : TablesStream :=
  ⟨0, 2, 0, 0, 1, 0, 0, fun t =>
    match t with
    | .localScope => some [[1, 0, 1, 1, 0, 256], [2, 0, second, 1, 0, 256]]
    | .localVariable => some [[0, 0, 0]]
    | _ => none⟩

def twoScopesFile (second : Nat) : Block := (twoScopes second).bareFile [(6, 2)]

theorem twoScopesFile_variables_exist : ∃ m h, Image.read (twoScopesFile 2) = .ok m ∧
    m.ask (.methodVariables (Handle.ofRow .methodDef 1) none) = .ok [h] ∧ m.HasVariable h ∧
    (step (.initial 100 (some (twoScopesFile 2))) (.tupleNames 1 0)).2 = .ok (.tupleNames none) ∧
    ∃ e, (step (.initial 100 (some (twoScopesFile 2))) (.tupleNames 1 1)).2 = .error e ∧
      e.kind = .variableNotFound := by
  have hany : ((Image.read (twoScopesFile 2)).toOption.any fun m =>
      (m.scopes (Handle.ofRow .methodDef 1)).toOption = some [1] ∧ m.RunInside 1 ∧
        (m.ask (.methodVariables (Handle.ofRow .methodDef 1) none)).toOption =
          some [Handle.ofRow .localVariable 1] ∧
        (tupleNamesOf m 1 (Handle.ofRow .methodDef 1) 0).toOption = some none) =
          true := by decide +kernel
  obtain ⟨m, hm, hall⟩ := exists_ok_of_any hany
  obtain ⟨hscopes, hinside, hvariables, hnames⟩ := of_decide_eq_true hall
  have hscopes := eq_ok_of_toOption hscopes
  have hvariables := eq_ok_of_toOption hvariables
  have htoken : Handle.ofMethodToken 1 = .ok (Handle.ofRow .methodDef 1) := rfl
  obtain ⟨_, hmethod, hsession⟩ := variables_exist_iff m
  have hexists := (hmethod _ _ _ hscopes hvariables).mpr (by simpa using hinside)
  have hstep : (step (.initial 100 (some (twoScopesFile 2))) (.tupleNames 1 0)).2 =
      .ok (.tupleNames none) := by
    refine (step_tupleNames rfl hm htoken).trans ?_
    rw [eq_ok_of_toOption hnames]; rfl
  obtain ⟨hnone, _⟩ := hsession (.initial 100 (some (twoScopesFile 2))) _ 1 _ 1 rfl hm htoken
  exact ⟨m, _, hm, hvariables, hexists _ (List.mem_singleton.mpr rfl), hstep,
    hnone.mpr (.inr ⟨_, hvariables, by decide⟩)⟩

/-- The second scope starts at a fifth variable. The first method has no second
one, and yet names are looked up for it and none are found. -/
theorem twoScopesFile_names_of_missing : ∃ m hs h, Image.read (twoScopesFile 5) = .ok m ∧
    m.ask (.methodVariables (Handle.ofRow .methodDef 1) none) = .ok hs ∧ hs[1]? = some h ∧
    ¬ m.HasVariable h ∧
    (step (.initial 100 (some (twoScopesFile 5))) (.tupleNames 1 1)).2 =
      .ok (.tupleNames none) := by
  have hany : ((Image.read (twoScopesFile 5)).toOption.any fun m =>
      (m.ask (.methodVariables (Handle.ofRow .methodDef 1) none)).toOption =
          some ([1, 2, 3, 4].map (Handle.ofRow .localVariable)) ∧
        ¬ m.HasVariable (Handle.ofRow .localVariable 2) ∧
        (tupleNamesOf m 1 (Handle.ofRow .methodDef 1) 1).toOption = some none) =
          true := by decide +kernel
  obtain ⟨m, hm, hall⟩ := exists_ok_of_any hany
  obtain ⟨hvariables, hmissing, hnames⟩ := of_decide_eq_true hall
  have htoken : Handle.ofMethodToken 1 = .ok (Handle.ofRow .methodDef 1) := rfl
  refine ⟨m, _, _, hm, eq_ok_of_toOption hvariables, rfl, hmissing, ?_⟩
  refine (step_tupleNames rfl hm htoken).trans ?_
  rw [eq_ok_of_toOption hnames]; rfl

end Session

end DebugMetadata
