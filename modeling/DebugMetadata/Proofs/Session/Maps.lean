import DebugMetadata.Proofs.Draft.Basic
import DebugMetadata.Proofs.Session.Step

/-!
# Maps that a session keeps

A session keeps the maps that the file says at the first step that asks for them
and can read them, and no step takes them away again (`maps_kept_from_first_load`).
-/

namespace DebugMetadata

namespace Session

/-! ## What a file says -/

/-- The maps of a file that opens and whose Source Link record, if the module has
one, can be read. -/
def HasMaps (depth : Nat) (file : Option Block) (maps : List SourceLink.Map) : Prop :=
  ∃ content m, file = some content ∧ Image.read content = .ok m ∧
    (m.payload? Handle.ofModule .sourceLink = .ok none ∧ maps = [] ∨
      ∃ payload, m.payload? Handle.ofModule .sourceLink = .ok (some payload) ∧
        SourceLink.decode depth payload = .ok maps)

theorem mapsOf_eq_ok_iff {depth : Nat} {m : Image} {maps : List SourceLink.Map} :
    mapsOf depth m = .ok maps ↔ m.payload? Handle.ofModule .sourceLink = .ok none ∧ maps = [] ∨
      ∃ payload, m.payload? Handle.ofModule .sourceLink = .ok (some payload) ∧
        SourceLink.decode depth payload = .ok maps := by
  unfold mapsOf
  rw [bind_eq_ok_iff]
  constructor
  · rintro ⟨payload, hp, h⟩
    cases payload with
    | none => exact .inl ⟨hp, (Except.ok.inj h).symm⟩
    | some payload => exact .inr ⟨payload, hp, h⟩
  · rintro (⟨hp, rfl⟩ | ⟨payload, hp, h⟩)
    · exact ⟨none, hp, rfl⟩
    · exact ⟨some payload, hp, h⟩

theorem opened_mapsOf_eq_ok_iff {s : State} {maps : List SourceLink.Map} :
    (opened s (mapsOf s.depth)).2 = .ok maps ↔ HasMaps s.depth s.file maps := by
  rw [opened_eq_ok_iff]
  simp only [mapsOf_eq_ok_iff]; rfl

theorem HasMaps.eq {depth : Nat} {file : Option Block} {maps other : List SourceLink.Map}
    (h : HasMaps depth file maps) (ho : HasMaps depth file other) : maps = other := by
  have h := (opened_mapsOf_eq_ok_iff (s := .initial depth file)).mpr h
  have ho := (opened_mapsOf_eq_ok_iff (s := .initial depth file)).mpr ho
  exact Except.ok.inj (h.symm.trans ho)

/-! ## One step -/

section
variable {s : State} {maps : List SourceLink.Map}

theorem step_of_some (hm : s.maps = some maps) (a : Step) :
    (step s a).1.maps = some maps ∧ ∀ form, a.Asks form → (step s a).2 = form maps := by
  have hload : loadMaps s = (s, .ok maps) := by
    simp only [loadMaps, hm]
  constructor
  · by_cases h : ∃ form, a.Asks form
    · obtain ⟨form, h⟩ := h
      rw [step_of_asks h, hload]
      exact hm
    · obtain ⟨opens, hs⟩ := step_of_not_asks (s := s) (not_exists.mp h)
      rw [hs]
      exact hm
  · intro form h
    rw [step_of_asks h, hload]; rfl

theorem step_of_hasMaps (hm : s.maps = none) {a : Step}
    {form : List SourceLink.Map → Except Error Answer}
    (h : a.Asks form) (hs : HasMaps s.depth s.file maps) : (step s a).1.maps = some maps ∧
      (step s a).2 = form maps := by
  rw [← opened_mapsOf_eq_ok_iff] at hs
  rw [step_of_asks h]
  rcases loadMaps_cases s with ⟨other, ho, _⟩ | ⟨_, ⟨other, opens, ho, hl⟩ | ⟨e, opens, ho, _⟩⟩
  · rw [hm] at ho; cases ho
  · rw [hs] at ho
    cases ho
    rw [hl]
    exact ⟨rfl, rfl⟩
  · rw [hs] at ho; cases ho

theorem step_of_not_hasMaps (hm : s.maps = none) {a : Step}
    (hs : ∀ form, a.Asks form → ∀ maps, ¬ HasMaps s.depth s.file maps) :
    (step s a).1.maps = none ∧ ∀ form, a.Asks form → ∃ e, (step s a).2 = .error e := by
  by_cases h : ∃ form, a.Asks form
  · obtain ⟨form, h⟩ := h
    rcases loadMaps_cases s with ⟨other, ho, _⟩ | ⟨_, ⟨other, opens, ho, _⟩ | ⟨e, opens, _, hl⟩⟩
    · rw [hm] at ho; cases ho
    · exact absurd (opened_mapsOf_eq_ok_iff.mp ho) (hs form h other)
    · constructor
      · rw [step_of_asks h, hl]
      · intro form' h'
        rw [step_of_asks h', hl]
        exact ⟨e, rfl⟩
  · obtain ⟨opens, hst⟩ := step_of_not_asks (s := s) (not_exists.mp h)
    rw [hst]
    exact ⟨hm, fun form h' => absurd ⟨form, h'⟩ h⟩

end

/-! ## Runs -/

section
variable (depth : Nat) (file : Option Block)

/-- The step with an index asks for the maps, and the file as it is then says
them. -/
def Loads (steps : List Step) (i : Nat) (maps : List SourceLink.Map) : Prop :=
  ∃ a form, steps[i]? = some a ∧ a.Asks form ∧
    HasMaps depth ((steps.take i).foldl Step.fileAfter file) maps

/-- No step before the one with an index could have loaded the maps. -/
def LoadsFirst (steps : List Step) (i : Nat) (maps : List SourceLink.Map) : Prop :=
  Loads depth file steps i maps ∧ ∀ j < i, ∀ other, ¬ Loads depth file steps j other

variable {depth file} {steps : List Step} {maps : List SourceLink.Map} {i : Nat}

theorem Loads.lt (h : Loads depth file steps i maps) : i < steps.length := by
  obtain ⟨a, _, ha, _⟩ := h
  exact (List.getElem?_eq_some_iff.mp ha).1

theorem loads_append_iff (hi : i < steps.length) (more : List Step) :
    Loads depth file (steps ++ more) i maps ↔ Loads depth file steps i maps := by
  unfold Loads
  rw [List.getElem?_append_left hi, List.take_append_of_le_length (Nat.le_of_lt hi)]

theorem loads_length_iff {a : Step} : Loads depth file (steps ++ [a]) steps.length maps ↔
    ∃ form, a.Asks form ∧ HasMaps depth (steps.foldl Step.fileAfter file) maps := by
  unfold Loads
  rw [List.getElem?_concat_length, List.take_left']
  · constructor
    · rintro ⟨_, form, ha, h⟩
      cases ha
      exact ⟨form, h⟩
    · rintro ⟨form, h⟩
      exact ⟨a, form, rfl, h⟩
  · rfl

theorem LoadsFirst.eq {other : List SourceLink.Map} {j : Nat}
    (h : LoadsFirst depth file steps i maps)
    (ho : LoadsFirst depth file steps j other) : maps = other := by
  rcases Nat.lt_trichotomy i j with hij | rfl | hji
  · exact absurd h.1 (ho.2 i hij maps)
  · obtain ⟨_, _, _, _, hs⟩ := h.1
    obtain ⟨_, _, _, _, hs'⟩ := ho.1
    exact hs.eq hs'
  · exact absurd ho.1 (h.2 j hji other)

theorem after_maps_of_some {s : State} (hm : s.maps = some maps) (steps : List Step) :
    (after s steps).maps = some maps := by
  induction steps generalizing s with
  | nil => exact hm
  | cons a steps ih => exact ih (step_of_some hm a).1

variable (depth file steps)

theorem after_maps :
    ((after (.initial depth file) steps).maps = none ∧ ∀ i maps, ¬ Loads depth file steps i maps) ∨
      ∃ i maps, (after (.initial depth file) steps).maps = some maps ∧
        LoadsFirst depth file steps i maps := by
  induction steps using List.reverseRecOn with
  | nil =>
    refine .inl ⟨rfl, ?_⟩
    intro i maps h
    exact absurd h.lt (Nat.not_lt_zero i)
  | append_singleton steps a ih =>
    have hstep : after (.initial depth file) (steps ++ [a]) =
      (step (after (.initial depth file) steps) a).1 :=
      after_append ..
    -- the maps that the file has now do not depend on what the session keeps
    have hfile : ∀ maps,
      HasMaps (after (.initial depth file) steps).depth
        (after (.initial depth file) steps).file maps ↔
        HasMaps depth (steps.foldl Step.fileAfter file) maps := by
      intro maps
      rw [after_depth, after_file]; rfl
    rw [hstep]
    rcases ih with ⟨hm, hnone⟩ | ⟨i, maps, hm, hload, hfirst⟩
    · -- nothing was loaded so far, so if the new step loads maps it is the first
      have hearlier : ∀ j < steps.length, ∀ other, ¬ Loads depth file (steps ++ [a]) j other := by
        intro j hj other h
        exact hnone j other ((loads_append_iff hj [a]).mp h)
      by_cases h : ∃ form maps, a.Asks form ∧ HasMaps depth (steps.foldl Step.fileAfter file) maps
      · obtain ⟨form, maps, h, hs⟩ := h
        refine .inr ⟨steps.length, maps, (step_of_hasMaps hm h ((hfile maps).mpr hs)).1,
          ?_, hearlier⟩
        exact loads_length_iff.mpr ⟨form, h, hs⟩
      · refine .inl ⟨(step_of_not_hasMaps hm ?_).1, ?_⟩
        · intro form ha maps hs
          exact h ⟨form, maps, ha, (hfile maps).mp hs⟩
        · intro j other hl
          have hj := hl.lt
          rw [List.length_append, List.length_singleton] at hj
          rcases Nat.lt_succ_iff_lt_or_eq.mp hj with hj | rfl
          · exact hearlier j hj other hl
          · obtain ⟨form, ha, hs⟩ := loads_length_iff.mp hl
            exact h ⟨form, other, ha, hs⟩
    · refine .inr ⟨i, maps, (step_of_some hm a).1, (loads_append_iff hload.lt [a]).mpr hload, ?_⟩
      intro j hj other h
      exact hfirst j hj other ((loads_append_iff (Nat.lt_trans hj hload.lt) [a]).mp h)

end

/-- After any steps, the session keeps the maps that the file said at the first
of them that could read them, and none if there was no such step. Once it keeps
maps, every later step leaves them, and answers with them if it asks for them,
whatever the file is then. Before, a step that asks keeps what the file says, even
if it fails after that, and otherwise gets an error; no other step keeps any. -/
theorem maps_kept_from_first_load (depth : Nat) (file : Option Block) (earlier later : List Step)
    (a : Step) :
    let s := after (.initial depth file) earlier
    s.file = earlier.foldl Step.fileAfter file ∧
    (run (.initial depth file) (earlier ++ a :: later))[earlier.length]? = some (step s a) ∧
    (s.maps = none ↔ ∀ i maps, ¬ Loads depth file earlier i maps) ∧
    (∀ maps, s.maps = some maps ↔ ∃ i, LoadsFirst depth file earlier i maps) ∧
    (∀ maps, s.maps = some maps → (after (.initial depth file) (earlier ++ a :: later)).maps = some maps ∧
      ∀ form, a.Asks form → (step s a).2 = form maps) ∧
    (s.maps = none →
      (∀ form maps, a.Asks form → HasMaps depth s.file maps →
        (step s a).1.maps = some maps ∧ (step s a).2 = form maps) ∧
      ((∀ form, a.Asks form → ∀ maps, ¬ HasMaps depth s.file maps) →
        (step s a).1.maps = none ∧ ∀ form, a.Asks form → ∃ e, (step s a).2 = .error e)) := by
  intro s
  have hdepth : s.depth = depth := after_depth _ _
  refine ⟨after_file _ _, getElem?_run _ _ _ _, ?_, ?_, ?_, ?_⟩
  · rcases after_maps depth file earlier with ⟨hm, hnone⟩ | ⟨i, maps, hm, hfirst⟩
    · exact iff_of_true hm hnone
    · refine iff_of_false ?_ fun h => h i maps hfirst.1
      rw [hm]
      exact Option.some_ne_none maps
  · intro maps
    rcases after_maps depth file earlier with ⟨hm, hnone⟩ | ⟨i, other, hm, hfirst⟩
    · refine iff_of_false ?_ fun ⟨i, h⟩ => hnone i maps h.1
      rw [hm]
      exact Option.some_ne_none maps |>.symm
    · constructor
      · intro hs
        obtain rfl : other = maps := Option.some.inj (hm.symm.trans hs)
        exact ⟨i, hfirst⟩
      · rintro ⟨j, h⟩
        rw [h.eq hfirst]
        exact hm
  · intro maps hm
    refine ⟨?_, (step_of_some hm a).2⟩
    rw [after_append]
    exact after_maps_of_some hm _
  · intro hm
    rw [← hdepth]
    exact ⟨fun form maps => step_of_hasMaps hm, step_of_not_hasMaps hm⟩

def bracketMap : SourceLink.Map := ⟨"/*", "http://[*"⟩

def bracketDraft : Draft :=
  ⟨0, 0, [], [⟨.moduleDef, RecordKind.sourceLink.guid,
    Utf8.encode "\x7b\"documents\":\x7b\"/*\":\"http://[*\"\x7d\x7d"⟩]⟩

theorem bracketDraft_hasMaps : HasMaps 100 (some bracketDraft.file) [bracketMap] := by
  apply (opened_mapsOf_eq_ok_iff (s := .initial 100 (some bracketDraft.file))).mp
  apply eq_ok_of_toOption
  decide +kernel

/-- The maps are not there, then they are read although a path cannot be resolved
with them, and then they outlive the file. -/
theorem bracketDraft_maps_kept :
    let s := after (.initial 100 none) [.maps, .write bracketDraft.file, .resolve "/a", .delete]
    s.file = none ∧ s.maps = some [bracketMap] ∧ (step s .maps).2 = .ok (.maps [bracketMap]) ∧
      ∃ e, SourceLink.resolve [bracketMap] "/a" = .error e ∧
        (step s (.resolve "/a")).2 = .error e := by
  intro s
  have hfirst :
      LoadsFirst 100 none [.maps, .write bracketDraft.file, .resolve "/a", .delete] 2
        [bracketMap] := by
    refine ⟨⟨_, _, rfl, .resolve "/a", bracketDraft_hasMaps⟩, ?_⟩
    rintro j hj other ⟨a, form, ha, h, _, _, hfile, _⟩
    -- the steps before the third one find no file or ask for nothing
    interval_cases j
    · cases hfile
    · cases ha
      cases h
  obtain ⟨hfile, _, _, hiff, hkept, _⟩ := maps_kept_from_first_load 100 none
    [.maps, .write bracketDraft.file, .resolve "/a", .delete] [] .maps
  have hm : s.maps = some [bracketMap] := (hiff _).mpr ⟨2, hfirst⟩
  refine ⟨hfile, hm, (hkept _ hm).2 _ .maps, ?_⟩
  have hr : SourceLink.resolve [bracketMap] "/a" = .error (.badUri .oneBracket) := by rfl
  refine ⟨_, hr, ?_⟩
  rw [(step_of_some hm (.resolve "/a")).2 _ (.resolve "/a"), hr]; rfl

end Session

end DebugMetadata
