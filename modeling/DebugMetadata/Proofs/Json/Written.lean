import DebugMetadata.Json.Reader
import DebugMetadata.Proofs.Text.Quoted

/-!
# Written texts

Strings and objects as a writer puts them that uses ASCII only: short escapes
where there are any, `\u` and four digits for all else that is not printable
ASCII, and two of them for a character beyond four digits. What is written is
read again (`string_written`, `value_writtenObject`).
-/

namespace DebugMetadata

namespace Json

open CodePoint (char)

/-! ## Escapes -/

def escapeLetter? : Char → Option Char
  | '"' => some '"'
  | '\\' => some '\\'
  | '\x08' => some 'b'
  | '\x0c' => some 'f'
  | '\n' => some 'n'
  | '\r' => some 'r'
  | '\t' => some 't'
  | _ => none

def unitEscape (n : Nat) : List Char := '\\' :: 'u' :: Hex.digits 4 n

def writtenChar (c : Char) : List Char :=
  match escapeLetter? c with
  | some letter => ['\\', letter]
  | none =>
    if 0x20 ≤ c.toNat ∧ c.toNat < 0x7F then [c]
    else if c.toNat < 0x10000 then unitEscape c.toNat
    else
      unitEscape (0xD800 + (c.toNat - 0x10000) / 0x400) ++
        unitEscape (0xDC00 + (c.toNat - 0x10000) % 0x400)

def writtenString (s : String) : List Char := '"' :: (s.toList.flatMap writtenChar ++ ['"'])

theorem codeUnit?_digits {n : Nat} (h : n < 0x10000) (c : Char) (s : List Char) :
    codeUnit? (Hex.digits 4 n ++ c :: s) = some n := by
  rw [Hex.digits_succ, Hex.digits_succ, Hex.digits_succ, Hex.digits_one (by omega)]
  simp only [List.cons_append, List.nil_append, codeUnit?]
  rw [Hex.value?_digitChar (by omega), Hex.value?_digitChar (by omega),
    Hex.value?_digitChar (by omega), Hex.value?_digitChar (by omega)]
  exact congrArg some (by omega)

/-! ## Strings -/

theorem characters_skip (opening : List Char) (found : List CodePoint) (skipped s : List Char) :
    characters opening skipped.length found (skipped ++ s) = characters opening 0 found s := by
  induction skipped with
  | nil => rfl
  | cons c skipped ih => rw [List.length_cons, List.cons_append, characters, ih]

theorem characters_escape {opening : List Char} {found : List CodePoint} (skipped : List Char)
    {s : List Char} {c : CodePoint} (h : escape opening (skipped ++ s) = .ok (c, skipped.length)) :
    characters opening 0 found ('\\' :: (skipped ++ s)) = characters opening 0 (c :: found) s := by
  -- an escape that is as long as what is skipped adds its code point
  rw [characters, if_neg (by decide), if_pos rfl, h]
  exact characters_skip opening (c :: found) skipped s

theorem escape_letter {c letter : Char} (h : escapeLetter? c = some letter)
    (opening s : List Char) : escape opening (letter :: s) = .ok (char c, 1) := by
  unfold escapeLetter? at h
  split at h <;> cases h <;> rfl

theorem isValidChar_toNat (c : Char) :
    c.toNat < 0xD800 ∨ 0xDFFF < c.toNat ∧ c.toNat < 0x110000 := c.valid

theorem escape_unit {c : Char} (h : c.toNat < 0x10000) (opening : List Char) (d : Char)
    (s : List Char) :
    escape opening ('u' :: Hex.digits 4 c.toNat ++ d :: s) = .ok (char c, 5) := by
  have hv := isValidChar_toNat c
  have hhigh : ¬ isHighSurrogate c.toNat = true := by
    simp only [isHighSurrogate, Bool.and_eq_true, decide_eq_true_eq]
    omega
  rw [List.cons_append, escape, if_pos rfl, unicodeEscape, codeUnit?_digits h]
  simp only [if_neg hhigh, CodePoint.ofNat_toNat_char]
  rfl

theorem length_unitEscape {n : Nat} (h : n < 0x10000) : (unitEscape n).length = 6 := by
  rw [unitEscape, List.length_cons, List.length_cons, Hex.length_digits h]

theorem lt_of_isHighSurrogate {n : Nat} (h : isHighSurrogate n = true) : n < 0x10000 := by
  simp only [isHighSurrogate, Bool.and_eq_true, decide_eq_true_eq] at h
  omega

theorem lt_of_isLowSurrogate {n : Nat} (h : isLowSurrogate n = true) : n < 0x10000 := by
  simp only [isLowSurrogate, Bool.and_eq_true, decide_eq_true_eq] at h
  omega

theorem unicodeEscape_pair {high low : Nat} (hh : isHighSurrogate high = true)
    (hl : isLowSurrogate low = true) (d : Char) (s : List Char) :
    unicodeEscape (Hex.digits 4 high ++ (unitEscape low ++ d :: s)) =
      .ok (char (pairChar high low), 10) := by
  have hdrop : (Hex.digits 4 high ++ '\\' :: 'u' :: (Hex.digits 4 low ++ d :: s)).drop 4 =
      '\\' :: 'u' :: (Hex.digits 4 low ++ d :: s) :=
        List.drop_left' (Hex.length_digits (lt_of_isHighSurrogate hh))
  rw [unicodeEscape, unitEscape, List.cons_append, List.cons_append,
    codeUnit?_digits (lt_of_isHighSurrogate hh)]
  simp only [if_pos hh, hdrop, codeUnit?_digits (lt_of_isLowSurrogate hl), if_pos hl]

theorem surrogates_toNat {c : Char} (h : 0x10000 ≤ c.toNat) :
    isHighSurrogate (0xD800 + (c.toNat - 0x10000) / 0x400) = true ∧
      isLowSurrogate (0xDC00 + (c.toNat - 0x10000) % 0x400) = true ∧
      pairChar (0xD800 + (c.toNat - 0x10000) / 0x400) (0xDC00 + (c.toNat - 0x10000) % 0x400) =
        c := by
  have hv := isValidChar_toNat c
  simp only [isHighSurrogate, isLowSurrogate, Bool.and_eq_true, decide_eq_true_eq]
  refine ⟨by omega, by omega, ?_⟩
  rw [pairChar, show 0x10000 + (0xD800 + (c.toNat - 0x10000) / 0x400 - 0xD800) * 0x400 +
    (0xDC00 + (c.toNat - 0x10000) % 0x400 - 0xDC00) = c.toNat by omega, Char.ofNat_toNat]

theorem characters_writtenChar (opening : List Char) (found : List CodePoint) (c d : Char)
    (s : List Char) :
    characters opening 0 found (writtenChar c ++ d :: s) =
      characters opening 0 (char c :: found) (d :: s) := by
  have hv := isValidChar_toNat c
  unfold writtenChar
  split
  · next letter hletter => exact characters_escape [letter] (escape_letter hletter opening (d :: s))
  · next hletter =>
    split
    · next hplain =>
      have hquote : c ≠ '"' := by rintro rfl; cases hletter
      have hbackslash : c ≠ '\\' := by rintro rfl; cases hletter
      rw [List.singleton_append, characters, if_neg hquote, if_neg hbackslash, if_neg (by omega)]
    split
    · next h =>
      refine characters_escape ('u' :: Hex.digits 4 c.toNat) ?_
      rw [escape_unit h, List.length_cons, Hex.length_digits h]
    · next h =>
      obtain ⟨hh, hl, hc⟩ := surrogates_toNat (Nat.le_of_not_lt h)
      generalize 0xD800 + (c.toNat - 0x10000) / 0x400 = high at *
      generalize 0xDC00 + (c.toNat - 0x10000) % 0x400 = low at *
      have hlength : ('u' :: Hex.digits 4 high ++ unitEscape low).length = 11 := by
        rw [List.length_append, List.length_cons, Hex.length_digits (lt_of_isHighSurrogate hh),
          length_unitEscape (lt_of_isLowSurrogate hl)]
      refine characters_escape ('u' :: Hex.digits 4 high ++ unitEscape low) ?_
      rw [hlength, List.append_assoc, List.cons_append, escape, if_pos rfl,
        unicodeEscape_pair hh hl, hc]
      rfl

theorem characters_written (opening : List Char) (found : List CodePoint) (cs rest : List Char) :
    characters opening 0 found (cs.flatMap writtenChar ++ '"' :: rest) =
      .ok (found.reverse ++ cs.map char, rest) := by
  induction cs generalizing found with
  | nil =>
    rw [List.flatMap_nil, List.nil_append, characters, if_pos rfl, List.map_nil, List.append_nil]
  | cons c cs ih =>
    -- the text that follows a character is not empty: a quote is still to come
    obtain ⟨d, s, hds⟩ : ∃ d s, cs.flatMap writtenChar ++ '"' :: rest = d :: s :=
      List.exists_cons_of_ne_nil (by simp)
    rw [List.flatMap_cons, List.append_assoc, hds, characters_writtenChar, ← hds, ih,
      List.reverse_cons, List.append_assoc, List.singleton_append, List.map_cons]

theorem writtenString_append (s : String) (rest : List Char) :
    writtenString s ++ rest = '"' :: (s.toList.flatMap writtenChar ++ '"' :: rest) := by
  simp [writtenString]

theorem string_written (s : String) (rest : List Char) :
    string (s.toList.flatMap writtenChar ++ '"' :: rest) = .ok (.ofString s, rest) := by
  rw [string, characters_written]
  rfl

/-! ## Values and members -/

/-- A text is read as a value, whatever follows it. -/
structure Writes {α : Type} (item : Reads α) (text : List Char) (a : α) : Prop where
  starts : ∃ c t, text = c :: t ∧ isBlank c = false
  reads (rest : List Char) : item (text ++ rest) = .ok (a, rest)

theorem skipBlanks_cons {c : Char} (h : isBlank c = false) (s : List Char) :
    skipBlanks (c :: s) = c :: s := by
  rw [skipBlanks, List.dropWhile_cons_of_neg (by simp [h])]

theorem Writes.skipBlanks {α : Type} {item : Reads α} {text : List Char} {a : α}
    (h : Writes item text a) (rest : List Char) : skipBlanks (text ++ rest) = text ++ rest := by
  obtain ⟨c, t, rfl, hc⟩ := h.starts
  exact skipBlanks_cons hc (t ++ rest)

theorem writes_string (depth : Nat) (s : String) :
    Writes (value depth) (writtenString s) (.string s) := by
  refine ⟨⟨'"', _, rfl, rfl⟩, fun rest => ?_⟩
  have hread : ∀ array object, 
      valueWith array object (writtenString s ++ rest) = .ok (.string s, rest) := by
    intro array object
    rw [writtenString_append, valueWith, if_pos rfl, string_written]
    rfl
  cases depth with
  | zero => exact hread _ _
  | succ depth => exact hread _ _

def writtenMember (key : String) (text : List Char) : List Char :=
  writtenString key ++ ':' :: ' ' :: text

theorem Writes.member {value : Reads Value} {text : List Char} {v : Value} (h : Writes value text v)
    (key : String) :
    
    Writes (member value) (writtenMember key text) (.ofString key, v) := by
  refine ⟨⟨'"', _, rfl, rfl⟩, fun rest => ?_⟩
  have hblank : Json.skipBlanks (' ' :: (text ++ rest)) = text ++ rest := h.skipBlanks rest
  rw [writtenMember, List.append_assoc, List.cons_append, List.cons_append, writtenString_append,
    Json.member, string_written]
  simp only [skipBlanks_cons (show isBlank ':' = false from rfl), hblank, h.reads]
  rfl

/-! ## Containers -/

section
variable {α β : Type} {item : Reads β} {text : α → List Char} {f : α → β}

def writtenItems (text : α → List Char) (as : List α) : List Char :=
  [',', ' '].intercalate (as.map text)

theorem writtenItems_cons_cons (a b : α) (as : List α) :
    writtenItems text (a :: b :: as) = text a ++ ',' :: ' ' :: writtenItems text (b :: as) := by
  simp [writtenItems, List.intercalate]

theorem writtenItems_starts {a : α} {c : Char} {t : List Char} (h : text a = c :: t) (as : List α) :
    ∃ t', writtenItems text (a :: as) = c :: t' := by
  cases as with
  | nil => exact ⟨t, by simp [writtenItems, h]⟩
  | cons b as => exact ⟨_, by rw [writtenItems_cons_cons, h, List.cons_append]⟩

theorem length_le_writtenItems (h : ∀ a, text a ≠ []) (as : List α) :
    as.length ≤ (writtenItems text as).length := by
  induction as with
  | nil => exact Nat.zero_le _
  | cons a as ih =>
    cases as with
    | nil => simpa [writtenItems, Nat.one_le_iff_ne_zero] using h a
    | cons b as =>
      rw [writtenItems_cons_cons]
      simp only [List.length_append, List.length_cons] at ih ⊢
      omega

variable {close : Char} (hclose : close ≠ ',') (hblank : isBlank close = false)
    (h : ∀ a, Writes item (text a) (f a))
include hclose hblank h

theorem items_written {as : List α} (hne : as ≠ []) {fuel : Nat} (hfuel : as.length ≤ fuel)
    (found : List β)
    (rest : List Char) :
    items close item fuel found (writtenItems text as ++ close :: rest) =
      .ok (found.reverse ++ as.map f, rest) := by
  induction as generalizing fuel found with
  | nil => exact absurd rfl hne
  | cons a as ih =>
    obtain ⟨fuel, rfl⟩ : ∃ k, fuel = k + 1 := ⟨fuel - 1, by rw [List.length_cons] at hfuel; omega⟩
    cases as with
    | nil => simp [writtenItems, items, (h a).reads, skipBlanks_cons hblank]
    | cons b as =>
      have hlater := ih (by simp) (Nat.le_of_succ_le_succ hfuel) (f a :: found)
      obtain ⟨c, t, hc, hcblank⟩ := (h b).starts
      obtain ⟨t', ht'⟩ := writtenItems_starts hc as
      have hblanks : skipBlanks (' ' :: (writtenItems text (b :: as) ++ close :: rest)) =
          writtenItems text (b :: as) ++ close :: rest := by
        rw [ht']; exact skipBlanks_cons hcblank _
      rw [writtenItems_cons_cons, List.append_assoc, List.cons_append, List.cons_append, items,
        (h a).reads]
      simp only [skipBlanks_cons (show isBlank ',' = false from rfl), if_neg hclose.symm, if_true,
        hblanks, hlater]
      simp

theorem enclosed_written (hstart : ∀ a c t, text a = c :: t → c ≠ close) (as : List α)
    (rest : List Char) :
    enclosed close item (writtenItems text as ++ close :: rest) = .ok (as.map f, rest) := by
  cases as with
  | nil =>
    show enclosed close item (close :: rest) = _
    rw [enclosed, skipBlanks_cons hblank]
    exact if_pos rfl
  | cons a as =>
    obtain ⟨c, t, hc, hcblank⟩ := (h a).starts
    obtain ⟨t', ht'⟩ := writtenItems_starts hc as
    have hlength : (a :: as).length ≤ (t' ++ close :: rest).length + 1 := by
      have hne : ∀ a, text a ≠ [] := by
        intro a h'
        obtain ⟨c, t, hc, _⟩ := (h a).starts
        rw [h'] at hc; cases hc
      have hle := length_le_writtenItems hne (a :: as)
      rw [ht'] at hle
      simp only [List.length_append, List.length_cons] at hle ⊢
      omega
    have hitems := items_written hclose hblank h (List.cons_ne_nil a as) hlength [] rest
    rw [ht', List.cons_append] at hitems ⊢
    rw [enclosed, skipBlanks_cons hcblank]
    simp only [if_neg (hstart a c t hc)]
    exact hitems

end

/-- The text of an object. -/
def writtenObject {α : Type} (text : α → List Char) (ms : List (String × α)) : List Char :=
  '\x7b' :: (writtenItems (fun m => writtenMember m.1 (text m.2)) ms ++ ['\x7d'])

theorem writes_object {α : Type} (depth : Nat) {text : α → List Char} {f : α → Value}
    (h : ∀ a, Writes (value depth) (text a) (f a)) (ms : List (String × α)) :
    Writes (value (depth + 1)) (writtenObject text ms)
      (.object (ms.map fun m => (.ofString m.1, f m.2))) := by
  refine ⟨⟨'\x7b', _, rfl, rfl⟩, fun rest => ?_⟩
  have hmembers : ∀ m : String × α,
      Writes (member (value depth)) (writtenMember m.1 (text m.2)) (.ofString m.1, f m.2) :=
    fun m => (h m.2).member m.1
  have hquote : ∀ (m : String × α) c t, writtenMember m.1 (text m.2) = c :: t → c ≠ '\x7d' := by
    intro m c t hc
    obtain ⟨rfl, -⟩ := List.cons.inj hc
    decide
  have henclosed := enclosed_written (by decide) rfl hmembers hquote ms rest
  rw [writtenObject, List.cons_append, List.append_assoc, List.singleton_append, value, valueWith,
    if_neg (by decide), if_neg (by decide), if_pos rfl, henclosed]
  rfl

end Json

end DebugMetadata
