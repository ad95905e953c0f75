import Mathlib.Data.List.TakeDrop
import DebugMetadata.Json.Reader

/-!
# What a reader takes

A reader leaves an end of its text, and takes at least one character off the
front of it (`value_takes`). So fuel for every character is enough for the items
of a container.
-/

namespace DebugMetadata

namespace Json

variable {α β : Type}

/-- What is left of a text when at least one character is taken off the front. -/
def Behind (rest s : List Char) : Prop := rest <:+ s ∧ rest.length < s.length

theorem behind_cons (c : Char) (s : List Char) : Behind s (c :: s) :=
  ⟨List.suffix_cons c s, Nat.lt_succ_self _⟩

theorem Behind.trans_suffix {r s t : List Char} (h : Behind r s) (hs : s <:+ t) : Behind r t :=
  ⟨h.1.trans hs, Nat.lt_of_lt_of_le h.2 hs.length_le⟩

theorem Behind.after {r s t : List Char} (h : Behind s t) (hr : r <:+ s) : Behind r t :=
  ⟨hr.trans h.1, Nat.lt_of_le_of_lt hr.length_le h.2⟩

def Takes (r : Reads α) : Prop := ∀ s a rest, r s = .ok (a, rest) → Behind rest s

theorem Takes.map {r : Reads α} (h : Takes r) (f : α → β) :
    Takes fun s => (r s).map fun (a, rest) => (f a, rest) := by
  intro s b rest hr
  cases hs : r s with
  | error stop => simp [hs, Except.map] at hr
  | ok found =>
    obtain ⟨a, rest'⟩ := found
    simp only [hs, Except.map, Except.ok.injEq, Prod.mk.injEq] at hr
    obtain ⟨-, rfl⟩ := hr
    exact h s a rest' hs

theorem skipBlanks_suffix (s : List Char) : skipBlanks s <:+ s := List.dropWhile_suffix isBlank

theorem behind_of_skipBlanks {c : Char} {rest s : List Char} (h : skipBlanks s = c :: rest) :
    Behind rest s :=
  (behind_cons c rest).trans_suffix (h ▸ skipBlanks_suffix s)

/-! ## Strings and words -/

theorem characters_takes (opening : List Char) (skip : Nat) (found : List CodePoint) :
    Takes (characters opening skip found) := by
  intro s
  induction s generalizing skip found with
  | nil => intro cs rest h; cases skip <;> cases h
  | cons c s ih =>
    intro cs rest h
    have hlater : ∀ skip found, characters opening skip found s = .ok (cs, rest) →
      Behind rest (c :: s) :=
      fun skip found h => (ih skip found cs rest h).trans_suffix (List.suffix_cons c s)
    cases skip with
    | succ skip => rw [characters] at h; exact hlater _ _ h
    | zero =>
      rw [characters] at h
      split at h
      · cases h; exact behind_cons c s
      split at h
      · split at h
        · cases h
        · exact hlater _ _ h
      split at h
      · cases h
      · exact hlater _ _ h

theorem string_takes : Takes string := by
  intro s a rest h
  exact (characters_takes ('"' :: s) 0 []).map Text.ofList s a rest h

theorem words_takes {s rest : List Char} {v : Value}
    (h : (words.findSome? fun (word, v) => (after? word s).map (v, ·)) = some (v, rest)) :
      Behind rest s := by
  obtain ⟨⟨word, v'⟩, hm, hw⟩ := List.exists_of_findSome?_eq_some h
  obtain ⟨rest', hafter, he⟩ := Option.map_eq_some_iff.mp hw
  obtain ⟨-, rfl⟩ := Prod.mk.inj he
  unfold after? at hafter
  split at hafter
  · next hp =>
    obtain ⟨t, rfl⟩ := List.isPrefixOf_iff_prefix.mp hp
    cases hafter
    have hword : 0 < word.length := by
      cases word with
      | nil => simp [words] at hm
      | cons c word => exact Nat.succ_pos _
    rw [List.drop_left]
    exact ⟨List.suffix_append word t, by simp; omega⟩
  · cases hafter

/-! ## Numbers -/

theorem span_suffix (p : Char → Bool) (s : List Char) : (s.span p).2 <:+ s := by
  rw [List.span_eq_takeWhile_dropWhile]
  exact List.dropWhile_suffix p

theorem fraction?_suffix {s digits rest : List Char} (h : fraction? s = some (digits, rest)) :
    rest <:+ s := by
  unfold fraction? at h
  split at h
  · next t =>
    simp only at h
    split at h
    · cases h
    · cases h; exact (span_suffix _ t).trans (List.suffix_cons _ t)
  · cases h

theorem exponent?_suffix {s rest : List Char} {e : Int} (h : exponent? s = some (e, rest)) :
    rest <:+ s := by
  have hdigits : ∀ {sign : Int} {t : List Char}, (if (t.span Char.isDigit).1.isEmpty then none
      else some (sign * (Digits.value (t.span Char.isDigit).1 : Int), (t.span Char.isDigit).2)) =
        some (e, rest) →
      rest <:+ t := by
    intro sign t h
    split at h
    · cases h
    · cases h; exact span_suffix _ t
  unfold exponent? at h
  split at h
  · next c t =>
    refine List.IsSuffix.trans ?_ (List.suffix_cons c t)
    split at h
    · simp only at h
      split at h
      · exact (hdigits h).trans (List.suffix_cons _ _)
      · exact (hdigits h).trans (List.suffix_cons _ _)
      · exact hdigits h
    · cases h
  · cases h

theorem whole?_behind {s whole rest : List Char} (h : whole? s = some (whole, rest)) :
    Behind rest s := by
  unfold whole? at h
  split at h
  · next c t =>
    split at h
    · cases h; exact behind_cons c _
    split at h
    · simp only at h
      cases h; exact (behind_cons c t).after (span_suffix _ t)
    · cases h
  · cases h

theorem optional_suffix {part? : List Char → Option (α × List Char)}
    (h : ∀ {s a rest}, part? s = some (a, rest) → rest <:+ s) (s : List Char) :
    (((part? s).map fun (a, rest) => (some a, rest)).getD (none, s)).2 <:+ s := by
  cases hs : part? s with
  | none => exact List.suffix_refl _
  | some found => exact h hs

theorem unsigned_suffix (s : List Char) : (match s with
    | '-' :: t => (true, t)
    | _ => (false, s)).2 <:+ s := by
  split
  · exact List.suffix_cons _ _
  · exact List.suffix_refl _

theorem number_takes : Takes number := by
  intro s v rest h
  unfold number at h
  simp only at h
  split at h
  · cases h
  · next whole behind hwhole =>
    have hfraction := optional_suffix fraction?_suffix behind
    have hrest : rest <:+ behind := by
      split at h
      · split at h
        · cases h
        · cases h; exact (optional_suffix exponent?_suffix _).trans hfraction
      · cases h; exact (optional_suffix exponent?_suffix _).trans hfraction
    exact ((whole?_behind hwhole).trans_suffix (unsigned_suffix s)).after hrest

/-! ## Values -/

theorem valueWith_takes {array object : Reads Value} (harray : Takes array)
    (hobject : Takes object) : Takes (valueWith array object) := by
  intro s v rest h
  cases s with
  | nil => cases h
  | cons c s =>
    simp only [valueWith] at h
    split at h
    · exact (string_takes.map Value.string s v rest h).trans_suffix (List.suffix_cons c s)
    split at h
    · exact (harray s v rest h).trans_suffix (List.suffix_cons c s)
    split at h
    · exact (hobject s v rest h).trans_suffix (List.suffix_cons c s)
    split at h
    · next found hfound =>
      cases h; exact words_takes hfound
    · exact number_takes _ v rest h

theorem items_takes {close : Char} {item : Reads α} (h : Takes item) (fuel : Nat) (found : List α) :
    Takes (items close item fuel found) := by
  induction fuel generalizing found with
  | zero => intro s as rest hs; cases hs
  | succ fuel ih =>
    intro s as rest hs
    rw [items] at hs
    split at hs
    · cases hs
    · next a behind hitem =>
      split at hs
      · cases hs
      · next c behind' hblanks =>
        have hbehind : Behind behind' s :=
          (behind_of_skipBlanks hblanks).trans_suffix (h s a behind hitem).1
        split at hs
        · cases hs; exact hbehind
        split at hs
        · exact hbehind.after ((ih _ _ _ _ hs).1.trans (skipBlanks_suffix behind'))
        · cases hs

theorem enclosed_takes {close : Char} {item : Reads α} (h : Takes item) :
    Takes (enclosed close item) := by
  intro s as rest hs
  unfold enclosed at hs
  split at hs
  · exact absurd (items_takes h 1 [] _ _ _ hs).2 (Nat.not_lt_zero _)
  · next c behind hblanks =>
    split at hs
    · cases hs; exact behind_of_skipBlanks hblanks
    · exact (items_takes h _ [] _ _ _ hs).trans_suffix (hblanks ▸ skipBlanks_suffix s)

theorem member_takes {value : Reads Value} (h : Takes value) : Takes (member value) := by
  intro s m rest hs
  unfold member at hs
  split at hs
  · next s =>
    split at hs
    · cases hs
    · next key behind hkey =>
      split at hs
      · next behind' hblanks =>
        have hvalue := h.map (fun v => (key, v)) _ m rest hs
        refine hvalue.trans_suffix ((skipBlanks_suffix behind').trans ?_)
        exact (behind_of_skipBlanks hblanks).1.trans
          ((string_takes s key behind hkey).1.trans (List.suffix_cons _ s))
      · cases hs
  · cases hs

theorem value_takes (depth : Nat) : Takes (value depth) := by
  induction depth with
  | zero => exact valueWith_takes (fun _ _ _ h => nomatch h) (fun _ _ _ h => nomatch h)
  | succ depth ih =>
    exact valueWith_takes ((enclosed_takes ih).map _) ((enclosed_takes (member_takes ih)).map _)

end Json

end DebugMetadata
