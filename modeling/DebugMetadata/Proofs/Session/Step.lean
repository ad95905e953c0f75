import DebugMetadata.Proofs.Result
import DebugMetadata.Session

/-!
# Steps of a session

What a step does to the file and to the maps that a session keeps, and when an
opened file gives an answer.
-/

namespace DebugMetadata

namespace Session

def Step.fileAfter (before : Option Block) : Step → Option Block
  | .write content => some content
  | .delete => none
  | _ => before

/-- The steps that ask for the maps, with the answer that each of them makes from
the maps. -/
inductive Step.Asks : Step → (List SourceLink.Map → Except Error Answer) → Prop where
  | maps : Asks .maps fun maps => .ok (.maps maps)
  | resolve (path : Text) : Asks (.resolve path) fun maps =>
    (SourceLink.resolve maps path).map .link

/-! ## Opening -/

theorem opened_state {α : Type} (s : State) (question : Image → Except Error α) :
    ∃ opens, (opened s question).1 = ⟨s.depth, s.file, s.maps, opens⟩ := by
  unfold opened
  cases s with
  | mk depth file maps opens =>
    cases file with
    | none => exact ⟨opens, rfl⟩
    | some file => exact ⟨opens + 1, rfl⟩

theorem opened_eq_ok_iff {α : Type} {s : State} {question : Image → Except Error α} {a : α} :
    (opened s question).2 = .ok a ↔
      ∃ file m, s.file = some file ∧ Image.read file = .ok m ∧ question m = .ok a := by
  unfold opened
  cases hs : s.file with
  | none => simp
  | some file =>
    cases hr : Image.read file with
    | error e => simp [hr]
    | ok m => simp [hr]

/-! ## One step -/

theorem step_of_asks {s : State} {a : Step} {form : List SourceLink.Map → Except Error Answer}
    (h : a.Asks form) : step s a = ((loadMaps s).1, (loadMaps s).2 >>= form) := by
  cases h with
  | maps =>
    unfold step answer
    cases (loadMaps s).2 with
    | error e => rfl
    | ok maps => rfl
  | resolve path =>
    unfold step
    cases loadMaps s with
    | mk s' r =>
      cases r with
      | error e => rfl
      | ok maps => rfl

theorem step_of_not_asks {s : State} {a : Step} (h : ∀ form, ¬ a.Asks form) :
    ∃ opens, (step s a).1 = ⟨s.depth, a.fileAfter s.file, s.maps, opens⟩ := by
  -- only opening the file changes what a step leaves, and that only counts
  cases a with
  | write content => exact ⟨s.opens, rfl⟩
  | delete => exact ⟨s.opens, rfl⟩
  | isMetadata => exact ⟨s.opens, rfl⟩
  | hoistedScopes token =>
    cases ht : Handle.ofMethodToken token with
    | error e =>
      simp only [step, ht]
      exact ⟨s.opens, rfl⟩
    | ok method =>
      simp only [step, ht]
      exact opened_state s fun m => hoistedScopesOf m method
  | tupleNames token index =>
    cases ht : Handle.ofMethodToken token with
    | error e =>
      simp only [step, ht]
      exact ⟨s.opens, rfl⟩
    | ok method =>
      cases index with
      | negSucc i =>
        simp only [step, ht]
        exact ⟨s.opens, rfl⟩
      | ofNat i =>
        simp only [step, ht]
        exact opened_state s fun m => tupleNamesOf m token method i
  | maps => exact absurd .maps (h _)
  | resolve path => exact absurd (.resolve path) (h _)
  | records entity => exact opened_state s fun m => (m.records entity).all
  | inspect => exact opened_state s .ok

theorem loadMaps_cases (s : State) :
    (∃ maps, s.maps = some maps ∧ loadMaps s = (s, .ok maps)) ∨
    s.maps = none ∧
      ((∃ maps opens, (opened s (mapsOf s.depth)).2 = .ok maps ∧
          loadMaps s = (⟨s.depth, s.file, some maps, opens⟩, .ok maps)) ∨
        ∃ e opens, (opened s (mapsOf s.depth)).2 = .error e ∧
          loadMaps s = (⟨s.depth, s.file, none, opens⟩, .error e)) := by
  cases hm : s.maps with
  | some maps =>
    refine .inl ⟨maps, rfl, ?_⟩
    simp only [loadMaps, hm]
  | none =>
    obtain ⟨opens, ho⟩ := opened_state s (mapsOf s.depth)
    refine .inr ⟨rfl, ?_⟩
    cases hr : opened s (mapsOf s.depth) with
    | mk s' r =>
      rw [hr] at ho
      obtain rfl : s' = ⟨s.depth, s.file, s.maps, opens⟩ := ho
      cases r with
      | ok maps =>
        refine .inl ⟨maps, opens, rfl, ?_⟩
        simp only [loadMaps, hm, hr]
      | error e =>
        refine .inr ⟨e, opens, rfl, ?_⟩
        simp only [loadMaps, hm, hr]

theorem step_state (s : State) (a : Step) :
    ∃ maps opens, (step s a).1 = ⟨s.depth, a.fileAfter s.file, maps, opens⟩ := by
  by_cases h : ∃ form, a.Asks form
  · obtain ⟨form, h⟩ := h
    have hf : a.fileAfter s.file = s.file := by
      cases h with
      | maps => rfl
      | resolve path => rfl
    rw [step_of_asks h, hf]
    rcases loadMaps_cases s with ⟨maps, _, hl⟩ | ⟨_, ⟨maps, opens, _, hl⟩ | ⟨e, opens, _, hl⟩⟩
    · exact ⟨s.maps, s.opens, by rw [hl]⟩
    · exact ⟨some maps, opens, by rw [hl]⟩
    · exact ⟨none, opens, by rw [hl]⟩
  · obtain ⟨opens, hs⟩ := step_of_not_asks (s := s) (not_exists.mp h)
    exact ⟨s.maps, opens, hs⟩

theorem step_file (s : State) (a : Step) : (step s a).1.file = a.fileAfter s.file := by
  obtain ⟨maps, opens, hs⟩ := step_state s a
  rw [hs]

theorem step_depth (s : State) (a : Step) : (step s a).1.depth = s.depth := by
  obtain ⟨maps, opens, hs⟩ := step_state s a
  rw [hs]

/-! ## Runs -/

def after (s : State) (steps : List Step) : State := steps.foldl (fun s a => (step s a).1) s

theorem after_append (s : State) (steps more : List Step) :
    after s (steps ++ more) = after (after s steps) more :=
  List.foldl_append

theorem length_run (s : State) (steps : List Step) : (run s steps).length = steps.length := by
  induction steps generalizing s with
  | nil => rfl
  | cons a steps ih =>
    rw [run, List.length_cons, ih, List.length_cons]

theorem run_append (s : State) (steps more : List Step) :
    run s (steps ++ more) = run s steps ++ run (after s steps) more := by
  induction steps generalizing s with
  | nil => rfl
  | cons a steps ih =>
    rw [List.cons_append, run, run, ih]; rfl

/-- What a run has for a step is the outcome of the step in the state after the
steps before it. -/
theorem getElem?_run (s : State) (earlier later : List Step) (a : Step) :
    (run s (earlier ++ a :: later))[earlier.length]? = some (step (after s earlier) a) := by
  rw [run_append, List.getElem?_append_right (Nat.le_of_eq (length_run s earlier)), length_run,
    Nat.sub_self]
  rfl

theorem after_file (s : State) (steps : List Step) :
    (after s steps).file = steps.foldl Step.fileAfter s.file := by
  induction steps generalizing s with
  | nil => rfl
  | cons a steps ih =>
    rw [List.foldl_cons, ← step_file]
    exact ih _

theorem after_depth (s : State) (steps : List Step) : (after s steps).depth = s.depth := by
  induction steps generalizing s with
  | nil => rfl
  | cons a steps ih => exact (ih _).trans (step_depth s a)

end Session

end DebugMetadata
