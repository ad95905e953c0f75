/-!
# Results and errors

When results that are put together from others are no errors.
-/

namespace DebugMetadata

variable {ε α β : Type}

theorem bind_eq_ok_iff {x : Except ε α} {f : α → Except ε β} {b : β} :
    (x >>= f) = .ok b ↔ ∃ a, x = .ok a ∧ f a = .ok b := by
  cases x with
  | error e =>
    constructor
    · intro h; cases h
    · rintro ⟨a, h, _⟩; cases h
  | ok a =>
    constructor
    · intro h
      exact ⟨a, rfl, h⟩
    · rintro ⟨a', h, hf⟩
      cases h; exact hf

theorem map_eq_ok_iff {x : Except ε α} {f : α → β} {b : β} :
    x.map f = .ok b ↔ ∃ a, x = .ok a ∧ f a = b := by
  cases x with
  | error e =>
    constructor
    · intro h; cases h
    · rintro ⟨a, h, _⟩; cases h
  | ok a =>
    constructor
    · intro h
      exact ⟨a, rfl, Except.ok.inj h⟩
    · rintro ⟨a', h, rfl⟩
      cases h; rfl

theorem map_eq_error_iff {x : Except ε α} {f : α → β} {e : ε} :
    x.map f = .error e ↔ x = .error e := by
  cases x with
  | error e' =>
    constructor
    · intro h; cases h; rfl
    · intro h; cases h; rfl
  | ok a =>
    constructor
    · intro h; cases h
    · intro h; cases h

theorem eq_ok_of_toOption {x : Except ε α} {a : α} (h : x.toOption = some a) : x = .ok a := by
  cases x with
  | error e => cases h
  | ok b => cases h; rfl

theorem exists_ok_of_any {x : Except ε α} {p : α → Bool} (h : x.toOption.any p = true) :
    ∃ a, x = .ok a ∧ p a = true := by
  cases x with
  | error e => cases h
  | ok a => exact ⟨a, rfl, h⟩

theorem mapM_of_ok {f : α → Except ε β} {g : α → β} {as : List α} (h : ∀ a ∈ as, f a = .ok (g a)) :
    as.mapM f = .ok (as.map g) := by
  induction as with
  | nil => rfl
  | cons a as ih =>
    rw [List.mapM_cons, h a (List.mem_cons_self ..), ih fun a ha => h a (List.mem_cons_of_mem _ ha)]
    rfl

theorem mapM_cons_of_ok {f : α → Except ε β} {a : α} {b : β} (h : f a = .ok b) (as : List α) :
    (a :: as).mapM f = (as.mapM f).map (b :: ·) := by
  rw [List.mapM_cons, h]
  cases as.mapM f with
  | error e => rfl
  | ok bs => rfl

theorem mapM_cons_of_error {f : α → Except ε β} {a : α} {e : ε} (h : f a = .error e) (as : List α) :
    (a :: as).mapM f = .error e := by
  rw [List.mapM_cons, h]; rfl

theorem mapM_exists_ok_iff {f : α → Except ε β} {as : List α} :
    (∃ bs, as.mapM f = .ok bs) ↔ ∀ a ∈ as, ∃ b, f a = .ok b := by
  induction as with
  | nil => exact iff_of_true ⟨[], rfl⟩ (by simp)
  | cons a as ih =>
    rw [List.forall_mem_cons, ← ih]
    cases h : f a with
    | error e => simp [mapM_cons_of_error h]
    | ok b =>
      rw [mapM_cons_of_ok h, and_iff_right ⟨b, rfl⟩]
      constructor
      · rintro ⟨_, hbs⟩
        obtain ⟨bs, hbs, _⟩ := map_eq_ok_iff.mp hbs
        exact ⟨bs, hbs⟩
      · rintro ⟨bs, hbs⟩
        exact ⟨b :: bs, map_eq_ok_iff.mpr ⟨bs, hbs, rfl⟩⟩

theorem mapM_eq_ok_iff {f : α → Except ε β} {g : β → α} {p : β → Prop}
    (hf : ∀ a b, f a = .ok b ↔ a = g b ∧ p b)
    {as : List α} {bs : List β} : as.mapM f = .ok bs ↔ as = bs.map g ∧ ∀ b ∈ bs, p b := by
  constructor
  · intro h
    induction as generalizing bs with
    | nil =>
      cases h
      exact ⟨rfl, by simp⟩
    | cons a as ih =>
      obtain ⟨b, hb⟩ := mapM_exists_ok_iff.mp ⟨bs, h⟩ a (List.mem_cons_self ..)
      rw [mapM_cons_of_ok hb] at h
      obtain ⟨bs', hbs, rfl⟩ := map_eq_ok_iff.mp h
      obtain ⟨has, hp⟩ := ih hbs
      obtain ⟨ha, hpb⟩ := (hf a b).mp hb
      exact ⟨by rw [ha, has, List.map_cons], List.forall_mem_cons.mpr ⟨hpb, hp⟩⟩
  · intro h
    obtain ⟨rfl, hp⟩ := h
    induction bs with
    | nil => rfl
    | cons b bs ih =>
      rw [List.forall_mem_cons] at hp
      rw [List.map_cons, mapM_cons_of_ok ((hf _ _).mpr ⟨rfl, hp.1⟩), ih hp.2]
      rfl

theorem exists_of_mapM_eq_error {f : α → Except ε β} {as : List α} {e : ε}
    (h : as.mapM f = .error e) :
    ∃ before a behind, as = before ++ a :: behind ∧ (∀ b ∈ before, ∃ c, f b = .ok c) ∧
      f a = .error e := by
  induction as with
  | nil => cases h
  | cons a as ih =>
    cases ha : f a with
    | error e' =>
      rw [mapM_cons_of_error ha] at h
      exact ⟨[], a, as, rfl, by simp, ha.trans (by cases h; rfl)⟩
    | ok b =>
      rw [mapM_cons_of_ok ha, map_eq_error_iff] at h
      obtain ⟨before, a', behind, rfl, hbefore, he⟩ := ih h
      exact ⟨a :: before, a', behind, rfl, List.forall_mem_cons.mpr ⟨⟨b, ha⟩, hbefore⟩, he⟩

end DebugMetadata
