import DebugMetadata.Proofs.Session.Maps
import DebugMetadata.Proofs.Session.Tokens

/-!
# How often a session opens the file

Which steps open the file is told by their arguments, by whether the file is there and
by whether maps are kept (`Looks`, `OpensAt`), and not by what comes of them. The number
of openings that a session counts is the number of these steps (`opens_counted`).
-/

namespace DebugMetadata

namespace Session

/-- The steps that look into the file if it is there, while these maps are kept. -/
def Step.Looks (kept : Option (List SourceLink.Map)) : Step → Prop
  | .hoistedScopes token => Handle.IsMethodToken token
  | .tupleNames token index => Handle.IsMethodToken token ∧ 0 ≤ index
  | .maps | .resolve _ => kept.isNone = true
  | .records _ | .inspect => True
  | .write _ | .delete | .isMetadata => False

instance (kept : Option (List SourceLink.Map)) : (a : Step) → Decidable (a.Looks kept)
  | .hoistedScopes token => inferInstanceAs (Decidable (Handle.IsMethodToken token))
  | .tupleNames token index => inferInstanceAs (Decidable (Handle.IsMethodToken token ∧ 0 ≤ index))
  | .maps | .resolve _ => inferInstanceAs (Decidable (kept.isNone = true))
  | .records _ | .inspect => inferInstanceAs (Decidable True)
  | .write _ | .delete | .isMetadata => inferInstanceAs (Decidable False)

/-! ## One step -/

section
variable (s : State)

theorem opened_opens {α : Type} (question : Image → Except Error α) :
    (opened s question).1.opens = s.opens + if s.file.isSome then 1 else 0 := by
  unfold opened
  cases s.file with
  | none => rfl
  | some file => rfl

theorem loadMaps_opens :
    (loadMaps s).1.opens = s.opens + if s.file.isSome ∧ s.maps.isNone then 1 else 0 := by
  have ho := opened_opens s (mapsOf s.depth)
  unfold loadMaps
  cases hm : s.maps with
  | some maps => simp
  | none =>
    cases hr : opened s (mapsOf s.depth) with
    | mk s' r =>
      rw [hr] at ho
      cases r with
      | error e => simpa using ho
      | ok maps => simpa using ho

theorem step_opens (a : Step) :
    (step s a).1.opens = s.opens + if s.file.isSome ∧ a.Looks s.maps then 1 else 0 := by
  cases a with
  | write content => simp [step, Step.Looks]
  | delete => simp [step, Step.Looks]
  | isMetadata => simp [step, Step.Looks]
  | hoistedScopes token =>
    by_cases ht : Handle.IsMethodToken token
    · simp [step, Step.Looks, answer, opened_opens, Handle.ofMethodToken_eq, ht]
    · simp [step, Step.Looks, Handle.ofMethodToken_eq, ht]
  | tupleNames token index =>
    by_cases ht : Handle.IsMethodToken token
    · cases index with
      | ofNat i => simp [step, Step.Looks, answer, opened_opens, Handle.ofMethodToken_eq, ht]
      | negSucc i => simp [step, Step.Looks, Handle.ofMethodToken_eq, ht]
    · simp [step, Step.Looks, Handle.ofMethodToken_eq, ht]
  | maps => simp [step_of_asks .maps, Step.Looks, loadMaps_opens]
  | resolve path => simp [step_of_asks (.resolve path), Step.Looks, loadMaps_opens]
  | records entity => simp [step, Step.Looks, answer, opened_opens]
  | inspect => simp [step, Step.Looks, answer, opened_opens]

variable {s} {maps : List SourceLink.Map}

theorem opens_of_some (hm : s.maps = some maps) {a : Step}
    {form : List SourceLink.Map → Except Error Answer}
    (h : a.Asks form) : (step s a).1.opens = s.opens := by
  have hlooks : ¬ a.Looks s.maps := by
    cases h with
    | maps => simp [Step.Looks, hm]
    | resolve path => simp [Step.Looks, hm]
  rw [step_opens, if_neg fun h => hlooks h.2, Nat.add_zero]

end

/-! ## Runs -/

/-- The step with an index opens the file: it is there by then, and the step looks into it. -/
def OpensAt (depth : Nat) (file : Option Block) (steps : List Step) (i : Nat) : Prop :=
  ∃ a ∈ steps[i]?, ((steps.take i).foldl Step.fileAfter file).isSome ∧
    a.Looks (after (.initial depth file) (steps.take i)).maps

instance (depth : Nat) (file : Option Block) (steps : List Step) (i : Nat) :
    Decidable (OpensAt depth file steps i) :=
  inferInstanceAs (Decidable (∃ a ∈ steps[i]?, _ ∧ _))

def openings (depth : Nat) (file : Option Block) (steps : List Step) : Nat :=
  (List.range steps.length).countP fun i => OpensAt depth file steps i

section
variable {depth : Nat} (file : Option Block) (steps : List Step)

theorem opensAt_append_iff {i : Nat} (hi : i < steps.length) (more : List Step) :
    OpensAt depth file (steps ++ more) i ↔ OpensAt depth file steps i := by
  unfold OpensAt
  rw [List.getElem?_append_left hi, List.take_append_of_le_length (Nat.le_of_lt hi)]

theorem opensAt_length_iff (a : Step) (later : List Step) :
    OpensAt depth file (steps ++ a :: later) steps.length ↔
      (after (.initial depth file) steps).file.isSome ∧
        a.Looks (after (.initial depth file) steps).maps := by
  have hfile : (after (.initial depth file) steps).file = steps.foldl Step.fileAfter file :=
    after_file _ _
  unfold OpensAt
  rw [List.getElem?_append_right (Nat.le_refl _), Nat.sub_self, List.take_left' rfl, hfile]
  simp

theorem openings_concat (a : Step) :
    openings depth file (steps ++ [a]) =
      openings depth file steps +
        if OpensAt depth file (steps ++ [a]) steps.length then 1 else 0 := by
  have hearlier :
    (List.range steps.length).countP (fun i => decide (OpensAt depth file (steps ++ [a]) i)) =
      openings depth file steps := by
    apply List.countP_congr
    intro i hi
    simp only [decide_eq_true_eq]
    exact opensAt_append_iff file steps (List.mem_range.mp hi) [a]
  rw [openings, List.length_append, List.length_singleton, List.range_succ,
    List.countP_append, hearlier, List.countP_singleton]
  simp

theorem after_opens : (after (.initial depth file) steps).opens = openings depth file steps := by
  induction steps using List.reverseRecOn with
  | nil => rfl
  | append_singleton steps a ih =>
    have hstep : after (.initial depth file) (steps ++ [a]) =
      (step (after (.initial depth file) steps) a).1 :=
      after_append ..
    rw [hstep, step_opens, ih, openings_concat]
    simp only [opensAt_length_iff]

end

/-- Once maps are kept, asking for them never opens the file again. -/
theorem after_opens_of_asks {s : State} {maps : List SourceLink.Map} (hm : s.maps = some maps)
    {steps : List Step}
    (h : ∀ a ∈ steps, ∃ form, a.Asks form) : (after s steps).opens = s.opens := by
  induction steps generalizing s with
  | nil => rfl
  | cons a steps ih =>
    obtain ⟨⟨form, ha⟩, hsteps⟩ := List.forall_mem_cons.mp h
    have hrest := ih (step_of_some hm a).1 hsteps
    rw [opens_of_some hm ha] at hrest
    exact hrest

/-- After any steps, a session has opened the file as often as there are steps among
them that found it there and looked into it. Each step opens it once or not at all, and
whether it fails after that makes no difference. Once maps are kept, steps that ask for
them open the file no more, however many there are and whatever comes between them. -/
theorem opens_counted (depth : Nat) (file : Option Block) (earlier later : List Step) (a : Step) :
    let s := after (.initial depth file) earlier
    s.opens = openings depth file earlier ∧
    (run (.initial depth file) (earlier ++ a :: later))[earlier.length]? = some (step s a) ∧
    (step s a).1.opens =
      s.opens + (if OpensAt depth file (earlier ++ a :: later) earlier.length then 1 else 0) ∧
    (∀ maps, s.maps = some maps → ∀ more, (∀ b ∈ more, ∃ form, b.Asks form) →
      (after s more).opens = s.opens) ∧
    ∀ maps, s.maps = some maps → ∀ between b form, b.Asks form →
      (step (after s between) b).1.opens = (after s between).opens := by
  intro s
  refine ⟨after_opens file earlier, getElem?_run _ _ _ _, ?_, ?_, ?_⟩
  · rw [step_opens]
    simp only [opensAt_length_iff]
    rfl
  · intro maps hm more hmore
    exact after_opens_of_asks hm hmore
  · intro maps hm between b form hb
    exact opens_of_some (after_maps_of_some hm between) hb

/-- Maps are asked for before the file is there, then twice while it is, and a position is
refused before that. Then the file is none any more, which two of the steps find out by
opening it, and at last it is gone. -/
def changingSteps : List Step :=
  [.maps, .write bracketDraft.file, .tupleNames 1 (-1), .maps, .resolve "/a", .write #[], .inspect,
    .hoistedScopes 0x06000001, .delete, .inspect]

theorem changingSteps_opens_counted :
    let s := after (.initial 100 none) changingSteps
    openings 100 none changingSteps = 3 ∧ s.maps = some [bracketMap] ∧
      (after s [.maps, .resolve "/b", .maps]).opens = 3 := by
  intro s
  obtain ⟨hopens, -, -, hkept, -⟩ := opens_counted 100 none changingSteps [] .maps
  have hs : s.opens = 3 ∧ s.maps = some [bracketMap] := by decide +kernel
  have hasks : ∀ b ∈ [Step.maps, .resolve "/b", .maps], ∃ form, b.Asks form := by
    simp only [List.forall_mem_cons]
    exact ⟨⟨_, .maps⟩, ⟨_, .resolve "/b"⟩, ⟨_, .maps⟩, by simp⟩
  exact ⟨hopens.symm.trans hs.1, hs.2, (hkept _ hs.2 _ hasks).trans hs.1⟩

end Session

end DebugMetadata
