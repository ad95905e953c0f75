import DebugMetadata.Proofs.Json.Taken

/-!
# How deep values are nested

Reading gives up exactly if it comes to more containers, opened one inside the
other, than it may (`parse_eq_tooDeep_iff`). The items before such a container
must be well formed, what follows it plays no part.
-/

namespace DebugMetadata

namespace Json

variable {α β : Type}

def GivesUp (r : Reads α) (s : List Char) : Prop := r s = .error .tooDeep

/-! ## What is no container -/

theorem characters_ne_tooDeep (opening : List Char) (skip : Nat) (found : List CodePoint)
    (s : List Char) : characters opening skip found s ≠ .error .tooDeep := by
  have hescape : ∀ s, escape opening s ≠ .error .tooDeep := by
    intro s h
    unfold escape at h
    split at h
    · cases h
    split at h
    · next t _ =>
      unfold unicodeEscape at h
      split at h
      · cases h
      split at h
      · split at h
        · split at h <;> cases h
        · cases h
      · cases h
    · split at h <;> cases h
  induction s generalizing skip found with
  | nil => intro h; cases skip <;> cases h
  | cons c s ih =>
    intro h
    cases skip with
    | succ skip => rw [characters] at h; exact ih _ _ h
    | zero =>
      rw [characters] at h
      split at h
      · cases h
      split at h
      · split at h
        · next stop hs => cases h; exact hescape s hs
        · exact ih _ _ h
      split at h
      · cases h
      · exact ih _ _ h

theorem givesUp_map_iff {r : Reads α} {f : α → β} {s : List Char} :
    GivesUp (fun s => (r s).map fun (a, rest) => (f a, rest)) s ↔ GivesUp r s := by
  unfold GivesUp
  cases h : r s with
  | error stop => simp [Except.map, h]
  | ok found => simp [Except.map, h]

theorem not_givesUp_string (s : List Char) : ¬ GivesUp string s :=
  fun h => characters_ne_tooDeep _ _ _ _ (givesUp_map_iff.mp h)

theorem not_givesUp_number (s : List Char) : ¬ GivesUp number s := by
  unfold GivesUp number
  simp only
  split
  · simp
  split
  · split <;> simp
  · simp

theorem givesUp_valueWith_iff {array object : Reads Value} {s : List Char} :
    GivesUp (valueWith array object) s ↔
    (∃ t, s = '[' :: t ∧ GivesUp array t) ∨ ∃ t, s = '\x7b' :: t ∧ GivesUp object t := by
  cases s with
  | nil => simp [GivesUp, valueWith]
  | cons c t =>
    unfold GivesUp
    simp only [valueWith]
    by_cases hs : c = '"'
    · rw [if_pos hs]
      exact iff_of_false (mt givesUp_map_iff.mp (not_givesUp_string t)) (by simp [hs])
    rw [if_neg hs]
    by_cases ha : c = '['
    · simp [ha]
    rw [if_neg ha]
    by_cases ho : c = '\x7b'
    · simp [ho]
    rw [if_neg ho]
    refine iff_of_false ?_ (by simp [ha, ho])
    split
    · simp
    · exact not_givesUp_number (c :: t)

/-! ## Agreement of readers -/

/-- Two readers read the same wherever neither gives up. -/
def Agree (r r' : Reads α) : Prop := ∀ s, GivesUp r s ∨ GivesUp r' s ∨ r s = r' s

theorem Agree.map {r r' : Reads α} (h : Agree r r') (f : α → β) :
    Agree (fun s => (r s).map fun (a, rest) => (f a, rest))
      (fun s => (r' s).map fun (a, rest) => (f a, rest)) := by
  intro s
  rw [givesUp_map_iff, givesUp_map_iff]
  exact (h s).imp_right (Or.imp_right fun h => congrArg _ h)

theorem Agree.valueWith {array array' object object' : Reads Value} (ha : Agree array array')
    (ho : Agree object object') : Agree (valueWith array object) (valueWith array' object') := by
  intro s
  rw [givesUp_valueWith_iff, givesUp_valueWith_iff]
  cases s with
  | nil => exact .inr (.inr rfl)
  | cons c t =>
    by_cases hc : c = '['
    · subst hc
      exact (ha t).imp (fun h => .inl ⟨t, rfl, h⟩) (Or.imp (fun h => .inl ⟨t, rfl, h⟩) id)
    by_cases hc' : c = '\x7b'
    · subst hc'
      exact (ho t).imp (fun h => .inr ⟨t, rfl, h⟩) (Or.imp (fun h => .inr ⟨t, rfl, h⟩) id)
    · exact .inr (.inr (by simp only [Json.valueWith, if_neg hc, if_neg hc']))

theorem Agree.items {close : Char} {item item' : Reads α} (h : Agree item item') (fuel : Nat)
    (found : List α) : Agree (items close item fuel found) (items close item' fuel found) := by
  induction fuel generalizing found with
  | zero => exact fun s => .inr (.inr rfl)
  | succ fuel ih =>
    intro s
    simp only [GivesUp, Json.items]
    rcases h s with h | h | h
    · rw [h]; exact .inl rfl
    · rw [h]; exact .inr (.inl rfl)
    rw [h]
    cases item' s with
    | error stop => exact .inr (.inr rfl)
    | ok r =>
      obtain ⟨a, rest⟩ := r
      simp only
      split
      · exact .inr (.inr rfl)
      split
      · exact .inr (.inr rfl)
      split
      · exact ih _ _
      · exact .inr (.inr rfl)

theorem Agree.enclosed {close : Char} {item item' : Reads α} (h : Agree item item') :
    Agree (enclosed close item) (enclosed close item') := by
  intro s
  simp only [GivesUp, Json.enclosed]
  split
  · exact h.items _ _ _
  split
  · exact .inr (.inr rfl)
  · exact h.items _ _ _

theorem Agree.member {value value' : Reads Value} (h : Agree value value') :
    Agree (member value) (member value') := by
  intro s
  simp only [GivesUp, Json.member]
  split
  · split
    · exact .inr (.inr rfl)
    split
    · exact h.map _ _
    · exact .inr (.inr rfl)
  · exact .inr (.inr rfl)

theorem value_agree (depth depth' : Nat) : Agree (value depth) (value depth') := by
  induction depth generalizing depth' with
  | zero => cases depth' <;> exact Agree.valueWith (fun _ => .inl rfl) (fun _ => .inl rfl)
  | succ depth ih =>
    cases depth' with
    | zero => exact Agree.valueWith (fun _ => .inr (.inl rfl)) (fun _ => .inr (.inl rfl))
    | succ depth' =>
      exact Agree.valueWith ((ih depth').enclosed.map _) ((ih depth').member.enclosed.map _)

/-! ## The items of a container -/

/-- Reading items at a text comes to one at another text, after other items and
their commas. -/
inductive Visits (item : Reads α) : List Char → List Char → Prop where
  | here {s : List Char} : Visits item s s
  | next {s rest behind t : List Char} {a : α} : item s = .ok (a, rest) →
      skipBlanks rest = ',' :: behind →
      Visits item (skipBlanks behind) t → Visits item s t

/-- The member of an object at a text has its value at another text. -/
def ValueAt (s t : List Char) : Prop := ∃ s' key rest behind,
  s = '"' :: s' ∧ string s' = .ok (key, rest) ∧ skipBlanks rest = ':' :: behind ∧
    t = skipBlanks behind

theorem Visits.of_agree {item item' : Reads α} (h : Agree item item') {s t : List Char}
    (hv : Visits item s t)
    (ht : GivesUp item' t) : ∃ t, Visits item' s t ∧ GivesUp item' t := by
  induction hv with
  | here => exact ⟨_, .here, ht⟩
  | @next s rest behind t a hitem hcomma hv ih =>
    obtain ⟨t', hv', ht'⟩ := ih ht
    rcases h s with hs | hs | hs
    · rw [GivesUp, hitem] at hs; cases hs
    · exact ⟨s, .here, hs⟩
    · exact ⟨t', .next (hs ▸ hitem) hcomma hv', ht'⟩

theorem exists_visits_iff {item : Reads α} {s : List Char} :
    (∃ t, Visits item s t ∧ GivesUp item t) ↔
    GivesUp item s ∨ ∃ a rest behind, item s = .ok (a, rest) ∧ skipBlanks rest = ',' :: behind ∧
      ∃ t, Visits item (skipBlanks behind) t ∧ GivesUp item t := by
  constructor
  · rintro ⟨t, hv, ht⟩
    cases hv with
    | here => exact .inl ht
    | next hitem hcomma hv => exact .inr ⟨_, _, _, hitem, hcomma, t, hv, ht⟩
  · rintro (h | ⟨a, rest, behind, hitem, hcomma, t, hv, ht⟩)
    · exact ⟨s, .here, h⟩
    · exact ⟨t, .next hitem hcomma hv, ht⟩

theorem givesUp_items_iff {close : Char} (hclose : close ≠ ',') {item : Reads α}
    (htakes : Takes item) {fuel : Nat}
    (found : List α) {s : List Char} (hpos : 0 < fuel) (hfuel : s.length ≤ fuel) :
    GivesUp (items close item fuel found) s ↔ ∃ t, Visits item s t ∧ GivesUp item t := by
  induction fuel generalizing found s with
  | zero => omega
  | succ fuel ih =>
    rw [exists_visits_iff]
    cases hitem : item s with
    | error stop => simp [GivesUp, items, hitem]
    | ok r =>
      obtain ⟨a, rest⟩ := r
      cases hblanks : skipBlanks rest with
      | nil => simp [GivesUp, items, hitem, hblanks]
      | cons c behind =>
        by_cases hc : c = close
        · simp [GivesUp, items, hitem, hblanks, hc, hclose]
        by_cases hcomma : c = ','
        · have hlength : (skipBlanks behind).length + 2 ≤ s.length := by
            have h₁ := (htakes s a rest hitem).2
            have h₂ := (behind_of_skipBlanks hblanks).2
            have h₃ := (skipBlanks_suffix behind).length_le
            omega
          -- the fuel is enough for what is left behind the comma
          have hlater := ih (a :: found) (s := skipBlanks behind) (by omega) (by omega)
          simp only [GivesUp] at hlater
          simpa [GivesUp, items, hitem, hblanks, hcomma, hclose.symm] using hlater
        · simp [GivesUp, items, hitem, hblanks, hc, hcomma]

theorem givesUp_enclosed_iff {close : Char} (hclose : close ≠ ',') {item : Reads α}
    (htakes : Takes item)
    (hitem : ∀ s, ∃ p rest, item (close :: s) = .error (.problem p rest)) (s : List Char) :
    GivesUp (enclosed close item) s ↔ ∃ t, Visits item (skipBlanks s) t ∧ GivesUp item t := by
  cases hblanks : skipBlanks s with
  | nil =>
    rw [← givesUp_items_iff hclose htakes [] (s := []) Nat.one_pos (Nat.zero_le 1)]
    simp only [GivesUp, enclosed, hblanks]
  | cons c rest =>
    by_cases hc : c = close
    · obtain ⟨p, rest', hp⟩ := hitem rest
      rw [exists_visits_iff]
      simp [GivesUp, enclosed, hblanks, hc, hp]
    · rw [← givesUp_items_iff hclose htakes [] (Nat.succ_pos rest.length) (Nat.le_refl _)]
      simp only [GivesUp, enclosed, hblanks, if_neg hc]

theorem value_close (depth : Nat) (s : List Char) :
    ∃ p rest, value depth (']' :: s) = .error (.problem p rest) := by
  refine ⟨.expectedValue, ']' :: s, ?_⟩
  cases depth <;> rfl

theorem givesUp_member_iff {value : Reads Value} {s : List Char} :
    GivesUp (member value) s ↔ ∃ t, ValueAt s t ∧ GivesUp value t := by
  constructor
  · intro h
    unfold GivesUp member at h
    split at h
    · next s' =>
      split at h
      · next stop hkey => cases h; exact absurd hkey (not_givesUp_string s')
      · next key rest hkey =>
        split at h
        · next behind hcolon =>
            exact ⟨_, ⟨s', key, rest, behind, rfl, hkey, hcolon, rfl⟩, givesUp_map_iff.mp h⟩
        · cases h
    · cases h
  · rintro ⟨_, ⟨s', key, rest, behind, rfl, hkey, hcolon, rfl⟩, ht⟩
    unfold GivesUp member
    simp only [hkey, hcolon]
    exact givesUp_map_iff.mpr ht

/-! ## Containers inside each other -/

/-- Reading the value at the front of a text comes to a number of containers that
are opened one inside the other. -/
inductive Reaches : Nat → List Char → Prop where
  | array (s : List Char) : Reaches 1 ('[' :: s)
  | object (s : List Char) : Reaches 1 ('\x7b' :: s)
  | item {depth n : Nat} {s t : List Char} : Visits (value depth) (skipBlanks s) t → Reaches n t →
      Reaches (n + 1) ('[' :: s)
  | member {depth n : Nat} {s t u : List Char} : Visits (member (value depth)) (skipBlanks s) t →
      ValueAt t u →
      Reaches n u → Reaches (n + 1) ('\x7b' :: s)

def isOpening (c : Char) : Bool := c == '[' || c == '\x7b'

theorem Reaches.opening {n : Nat} {s : List Char} (h : Reaches n s) :
    ∃ c t, s = c :: t ∧ isOpening c = true := by
  cases h <;> exact ⟨_, _, rfl, rfl⟩

theorem givesUp_value_succ_iff {depth : Nat} {s : List Char} : GivesUp (value (depth + 1)) s ↔
    (∃ r t, s = '[' :: r ∧ Visits (value depth) (skipBlanks r) t ∧ GivesUp (value depth) t) ∨
    ∃ r t u, s = '\x7b' :: r ∧ Visits (Json.member (value depth)) (skipBlanks r) t ∧ ValueAt t u ∧
      GivesUp (value depth) u := by
  have harray := @givesUp_enclosed_iff _ ']' (by decide) _ (value_takes depth) (value_close depth)
  have hobject := @givesUp_enclosed_iff _ '\x7d' (by decide) _ (member_takes (value_takes depth))
    (fun s => ⟨.expectedName, '\x7d' :: s, rfl⟩)
  rw [value, givesUp_valueWith_iff]
  simp only [givesUp_map_iff, harray, hobject, givesUp_member_iff]
  constructor
  · rintro (⟨r, hs, t, hv, ht⟩ | ⟨r, hs, t, hv, u, hu, ht⟩)
    · exact .inl ⟨r, t, hs, hv, ht⟩
    · exact .inr ⟨r, t, u, hs, hv, hu, ht⟩
  · rintro (⟨r, t, hs, hv, ht⟩ | ⟨r, t, u, hs, hv, hu, ht⟩)
    · exact .inl ⟨r, hs, t, hv, ht⟩
    · exact .inr ⟨r, hs, t, hv, u, hu, ht⟩

theorem givesUp_value_iff {depth : Nat} {s : List Char} :
    GivesUp (value depth) s ↔ Reaches (depth + 1) s := by
  induction depth generalizing s with
  | zero =>
    -- the innermost reader gives up at any container
    refine givesUp_valueWith_iff.trans ?_
    constructor
    · rintro (⟨t, rfl, -⟩ | ⟨t, rfl, -⟩)
      · exact .array t
      · exact .object t
    · intro h
      cases h with
      | array t => exact .inl ⟨t, rfl, rfl⟩
      | object t => exact .inr ⟨t, rfl, rfl⟩
      | item _ h => cases h
      | member _ _ h => cases h
  | succ depth ih =>
    rw [givesUp_value_succ_iff]
    constructor
    · rintro (⟨r, t, rfl, hv, ht⟩ | ⟨r, t, u, rfl, hv, hu, ht⟩)
      · exact .item hv (ih.mp ht)
      · exact .member hv hu (ih.mp ht)
    · intro h
      cases h with
      | @item depth' _ r t hv h =>
        obtain ⟨t', hv', ht'⟩ := hv.of_agree (value_agree depth' depth) (ih.mpr h)
        exact .inl ⟨r, t', rfl, hv', ht'⟩
      | @member depth' _ r t u hv hu h =>
        obtain ⟨t', hv', ht'⟩ :=
          hv.of_agree (value_agree depth' depth).member (givesUp_member_iff.mpr ⟨u, hu, ih.mpr h⟩)
        obtain ⟨u', hu', ht'⟩ := givesUp_member_iff.mp ht'
        exact .inr ⟨r, t', u', rfl, hv', hu', ht'⟩

theorem readAll_eq_tooDeep_iff {depth : Nat} {text : List Char} :
    readAll depth text = .error .tooDeep ↔ Reaches (depth + 1) (skipBlanks text) := by
  unfold readAll
  split
  · next hmark =>
    -- the mark is neither blank nor a bracket
    cases text with
    | nil => cases hmark
    | cons c text =>
      obtain rfl := Option.some.inj hmark
      have hblanks : skipBlanks (Char.ofNat 0xFEFF :: text) = Char.ofNat 0xFEFF :: text := by
        rw [skipBlanks, List.dropWhile_cons_of_neg (by decide)]
      rw [hblanks]
      refine iff_of_false (by simp) fun h => ?_
      obtain ⟨c, t, hc, hopening⟩ := h.opening
      obtain ⟨rfl, -⟩ := List.cons.inj hc
      exact absurd hopening (by decide)
  rw [← givesUp_value_iff, GivesUp]
  split
  · next stop hs => simp [hs]
  · next v rest hs =>
    rw [hs]
    split <;> simp

/-- A text is nested too deep exactly if reading it comes to more containers inside
each other than the limit. -/
theorem parse_eq_tooDeep_iff {depth : Nat} {s : String} :
    parse depth s = .error .tooDeep ↔ Reaches (depth + 1) (skipBlanks s.toList) := by
  rw [← readAll_eq_tooDeep_iff]
  unfold parse
  cases readAll depth s.toList with
  | error stop => cases stop <;> simp [Except.mapError, Stop.error]
  | ok v => simp [Except.mapError]

/-! ## Brackets -/

theorem Visits.suffix {item : Reads α} (htakes : Takes item) {s t : List Char}
    (h : Visits item s t) : t <:+ s := by
  induction h with
  | here => exact List.suffix_refl _
  | next hitem hcomma _ ih =>
    exact ih.trans
      ((skipBlanks_suffix _).trans ((behind_of_skipBlanks hcomma).1.trans (htakes _ _ _ hitem).1))

theorem ValueAt.suffix {s t : List Char} (h : ValueAt s t) : t <:+ s := by
  obtain ⟨s', key, rest, behind, rfl, hkey, hcolon, rfl⟩ := h
  exact (skipBlanks_suffix behind).trans ((behind_of_skipBlanks hcolon).1.trans
    ((string_takes s' key rest hkey).1.trans (List.suffix_cons _ s')))

theorem Reaches.le_countP {n : Nat} {s : List Char} (h : Reaches n s) : n ≤ s.countP isOpening := by
  -- containers inside each other have a bracket each
  have hcons : ∀ {c : Char} {s t : List Char} {n : Nat}, isOpening c = true → t <:+ s →
    n ≤ t.countP isOpening →
      n + 1 ≤ (c :: s).countP isOpening := by
    intro c s t n hc ht hn
    rw [List.countP_cons_of_pos hc]
    exact Nat.succ_le_succ (Nat.le_trans hn ht.sublist.countP_le)
  induction h with
  | array s => exact hcons rfl (List.suffix_refl s) (Nat.zero_le _)
  | object s => exact hcons rfl (List.suffix_refl s) (Nat.zero_le _)
  | item hv _ ih => exact hcons rfl ((hv.suffix (value_takes _)).trans (skipBlanks_suffix _)) ih
  | member hv hu _ ih =>
    exact hcons rfl (hu.suffix.trans ((hv.suffix (member_takes (value_takes _))).trans (skipBlanks_suffix _))) ih

theorem reaches_replicate (n : Nat) (s : List Char) :
    Reaches (n + 1) (List.replicate (n + 1) '[' ++ s) := by
  induction n with
  | zero => exact .array s
  | succ n ih => exact @Reaches.item 0 _ _ _ .here ih

end Json

end DebugMetadata
