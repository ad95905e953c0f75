import Mathlib
import DebugMetadata.Text.Quoted

/-!
# Reading quoted texts

What stands between the quotes is read back up to the closing one. A quoted text
tells its text and where it ends (`text_append_inj`), so no two texts are shown
alike. All that is shown can be printed (`isPrintable_of_mem_text`), and a text that
needs no escapes is shown as it is (`text_ofString`).
-/

namespace DebugMetadata

theorem Hex.length_digits {width n : Nat} (h : n < 16 ^ (width + 1)) :
    (digits (width + 1) n).length = width + 1 := by
  induction width generalizing n with
  | zero => rw [digits_one h]; rfl
  | succ width ih =>
    have hdiv : n / 16 < 16 ^ (width + 1) := Nat.div_lt_of_lt_mul (by rwa [Nat.pow_succ'] at h)
    rw [digits_succ, List.length_append, ih hdiv, List.length_singleton]

namespace Quoted

open CodePoint (char surrogate)

/-! ## A reader -/

/-- How many digits follow the letter of an escape by number. -/
def width? : Char → Option Nat
  | 'x' => some 2
  | 'u' => some 4
  | 'U' => some 8
  | _ => none

/-- What a character stands for behind a backslash, where no number follows. -/
def escaped : Char → Char
  | 't' => '\t'
  | 'n' => '\n'
  | 'r' => '\r'
  | c => c

def number (ds : List Char) : Nat := ds.foldl (fun n c => n * 16 + (Hex.value? c).getD 0) 0

/-- Reads code points up to a closing quote, and gives what follows it. -/
def read (quote : Char) (s : List Char) : Option (List CodePoint × List Char) :=
  match s with
  | [] => none
  | c :: s =>
    if c = quote then some ([], s)
    else if c = '\\' then
      match s with
      | [] => none
      | letter :: s =>
        match width? letter with
        | some width =>
          (read quote (s.drop width)).map fun (cs, rest) =>
            (.ofNat (number (s.take width)) :: cs, rest)
        | none => (read quote s).map fun (cs, rest) => (char (escaped letter) :: cs, rest)
    else (read quote s).map fun (cs, rest) => (char c :: cs, rest)
termination_by s.length
decreasing_by
  · simp only [List.length_cons, List.length_drop]
    omega
  · simp only [List.length_cons]
    omega
  · simp only [List.length_cons]
    omega

section
variable {quote : Char} {s : List Char}

theorem read_quote : read quote (quote :: s) = some ([], s) := by
  rw [read.eq_def]
  simp

theorem read_cons {c : Char} (hquote : c ≠ quote) (hbackslash : c ≠ '\\') :
    read quote (c :: s) = (read quote s).map fun (cs, rest) => (char c :: cs, rest) := by
  rw [read.eq_def]
  simp [hquote, hbackslash]

variable (hquote : quote ≠ '\\')
include hquote

theorem read_letter {letter : Char} (h : width? letter = none) :
    read quote ('\\' :: letter :: s) =
      (read quote s).map fun (cs, rest) => (char (escaped letter) :: cs, rest) := by
  rw [read.eq_def]
  simp [hquote.symm, h]

theorem read_number {letter : Char} {ds : List Char} (h : width? letter = some ds.length) :
    read quote ('\\' :: letter :: (ds ++ s)) =
      (read quote s).map fun (cs, rest) => (.ofNat (number ds) :: cs, rest) := by
  rw [read.eq_def]
  simp [hquote.symm, h]

end

/-! ## Escapes -/

theorem number_append_singleton (ds : List Char) (c : Char) :
    number (ds ++ [c]) = number ds * 16 + (Hex.value? c).getD 0 := by
  simp [number]

theorem number_digits {width n : Nat} (h : n < 16 ^ (width + 1)) :
    number (Hex.digits (width + 1) n) = n := by
  induction width generalizing n with
  | zero => rw [Hex.digits_one h]; simp [number, Hex.value?_digitChar h]
  | succ width ih =>
    have hdiv : n / 16 < 16 ^ (width + 1) := Nat.div_lt_of_lt_mul (by rwa [Nat.pow_succ'] at h)
    rw [Hex.digits_succ, number_append_singleton, ih hdiv,
      Hex.value?_digitChar (Nat.mod_lt n (by decide)), Option.getD_some]
    omega

theorem exists_numberEscape {n : Nat} (h : n < 16 ^ 8) : ∃ letter width,
    width? letter = some (width + 1) ∧ n < 16 ^ (width + 1) ∧
      numberEscape n = '\\' :: letter :: Hex.digits (width + 1) n := by
  unfold numberEscape
  split
  · next hn => exact ⟨'x', 1, rfl, hn, rfl⟩
  split
  · next hn => exact ⟨'u', 3, rfl, hn, rfl⟩
  · exact ⟨'U', 7, rfl, h, rfl⟩

/-- The letters of the short escapes. Quotes and the backslash stand for themselves. -/
def letters : List Char := ['\\', '\'', '"', 't', 'n', 'r']

theorem exists_shortEscape {quote c : Char} (hquote : quote = '\'' ∨ quote = '"') {cs : List Char}
    (h : shortEscape? quote c = some cs) :
    ∃ letter ∈ letters, width? letter = none ∧ escaped letter = c ∧ ['\\', letter] = cs := by
  unfold shortEscape? at h
  split at h
  · next hc =>
    cases h
    refine ⟨c, ?_⟩
    simp only [Bool.or_eq_true, decide_eq_true_eq] at hc
    rcases hc with rfl | rfl
    · rcases hquote with rfl | rfl
      · decide
      · decide
    · decide
  split at h
  · next hc => cases h; exact ⟨'t', by decide, rfl, hc.symm, rfl⟩
  split at h
  · next hc => cases h; exact ⟨'n', by decide, rfl, hc.symm, rfl⟩
  split at h
  · next hc => cases h; exact ⟨'r', by decide, rfl, hc.symm, rfl⟩
  · cases h

section
variable {quote : Char} (hquote : quote = '\'' ∨ quote = '"') (s : List Char)
include hquote

theorem ne_backslash_of_quote : quote ≠ '\\' := by
  rcases hquote with rfl | rfl
  · decide
  · decide

theorem read_numberEscape {n : Nat} (h : n < 16 ^ 8) : read quote (numberEscape n ++ s) =
    (read quote s).map fun (cs, rest) => (.ofNat n :: cs, rest) := by
  obtain ⟨letter, width, hletter, hn, heq⟩ := exists_numberEscape h
  rw [heq, List.cons_append, List.cons_append,
    read_number (ne_backslash_of_quote hquote) (by rw [hletter, Hex.length_digits hn]),
    number_digits hn]

theorem read_shortEscape {c : Char} {cs : List Char} (h : shortEscape? quote c = some cs) :
    read quote (cs ++ s) = (read quote s).map fun (cs, rest) => (char c :: cs, rest) := by
  obtain ⟨letter, -, hwidth, rfl, rfl⟩ := exists_shortEscape hquote h
  exact read_letter (ne_backslash_of_quote hquote) hwidth

theorem read_shown (plain : Char → Bool) (c : CodePoint) : read quote (shown plain quote c ++ s) =
    (read quote s).map fun (cs, rest) => (c :: cs, rest) := by
  have hnumber : c.toNat < 16 ^ 8 := Nat.lt_trans c.toNat_lt (by decide)
  have hescape := read_numberEscape hquote s hnumber
  rw [CodePoint.ofNat_toNat] at hescape
  cases c with
  | surrogate n => exact hescape
  | char c =>
    simp only [shown]
    cases hshort : shortEscape? quote c with
    | some cs => exact read_shortEscape hquote s hshort
    | none =>
      rw [Option.getD_none]
      split
      · simp only [shortEscape?, Bool.or_eq_true, decide_eq_true_eq] at hshort
        have hc : ¬ (c = quote ∨ c = '\\') := fun h => by simp [h] at hshort
        rw [not_or] at hc
        exact read_cons hc.1 hc.2
      · exact hescape

end

/-! ## Texts -/

theorem quoteFor_cases (cs : List CodePoint) : quoteFor cs = '\'' ∨ quoteFor cs = '"' := by
  unfold quoteFor
  split
  · exact .inr rfl
  · exact .inl rfl

theorem read_flatMap_shown (plain : Char → Bool) {quote : Char}
    (hquote : quote = '\'' ∨ quote = '"') (cs : List CodePoint) (rest : List Char) :
    read quote (cs.flatMap (shown plain quote) ++ quote :: rest) = some (cs, rest) := by
  induction cs with
  | nil => exact read_quote
  | cons c cs ih => rw [List.flatMap_cons, List.append_assoc, read_shown hquote, ih]; rfl

theorem toList_encode (plain : Char → Bool) (cs : List CodePoint) :
    (encode plain cs).toList =
      quoteFor cs :: (cs.flatMap (shown plain (quoteFor cs)) ++ [quoteFor cs]) :=
  String.toList_ofList

theorem encode_append_inj {plain : Char → Bool} {cs ds : List CodePoint} {rest rest' : List Char}
    (h : (encode plain cs).toList ++ rest = (encode plain ds).toList ++ rest') :
    cs = ds ∧ rest = rest' := by
  simp only [toList_encode, List.cons_append, List.append_assoc, List.nil_append] at h
  obtain ⟨hquote, h⟩ := List.cons.inj h
  -- the quotes agree, so one reader reads both
  have hread := read_flatMap_shown plain (quoteFor_cases cs) cs rest
  rw [h, hquote, read_flatMap_shown plain (quoteFor_cases ds)] at hread
  obtain ⟨hcs, hrest⟩ := Prod.mk.inj (Option.some.inj hread)
  exact ⟨hcs.symm, hrest.symm⟩

theorem text_append_inj {s t : Text} {rest rest' : String}
    (h : text s ++ rest = text t ++ rest') : s = t ∧ rest = rest' := by
  have hlists := congrArg String.toList h
  rw [String.toList_append, String.toList_append] at hlists
  obtain ⟨hst, hrest⟩ := encode_append_inj hlists
  exact ⟨Text.toList_inj.mp hst, String.toList_inj.mp hrest⟩

/-! ## Printing -/

theorem isPrintable_of_ascii {c : Char} (hlow : 0x20 ≤ c.toNat) (hhigh : c.toNat < 0x7F) :
    Printable.isPrintable c = true := by
  have hall : ∀ n < 0x7F, 0x20 ≤ n → Printable.isPrintable (Char.ofNat n) = true := by
    decide +kernel
  have hc := hall c.toNat hhigh hlow
  rwa [Char.ofNat_toNat] at hc

theorem isPrintable_digitChar {n : Nat} (h : n < 16) :
    Printable.isPrintable n.digitChar = true := by
  have hall : ∀ n < 16, 0x20 ≤ n.digitChar.toNat ∧ n.digitChar.toNat < 0x7F := by decide
  exact isPrintable_of_ascii (hall n h).1 (hall n h).2

theorem isPrintable_of_mem_digits {width n : Nat} (h : n < 16 ^ (width + 1)) {c : Char}
    (hc : c ∈ Hex.digits (width + 1) n) : Printable.isPrintable c = true := by
  induction width generalizing n with
  | zero =>
    rw [Hex.digits_one h, List.mem_singleton] at hc
    rw [hc]
    exact isPrintable_digitChar h
  | succ width ih =>
    have hdiv : n / 16 < 16 ^ (width + 1) := Nat.div_lt_of_lt_mul (by rwa [Nat.pow_succ'] at h)
    rw [Hex.digits_succ, List.mem_append, List.mem_singleton] at hc
    rcases hc with hc | rfl
    · exact ih hdiv hc
    · exact isPrintable_digitChar (Nat.mod_lt n (by decide))

theorem isPrintable_of_mem_numberEscape {n : Nat} (h : n < 16 ^ 8) {c : Char}
    (hc : c ∈ numberEscape n) : Printable.isPrintable c = true := by
  obtain ⟨letter, width, hletter, hn, heq⟩ := exists_numberEscape h
  rw [heq, List.mem_cons, List.mem_cons] at hc
  rcases hc with rfl | rfl | hc
  · exact isPrintable_of_ascii (by decide) (by decide)
  · unfold width? at hletter
    split at hletter
    · exact isPrintable_of_ascii (by decide) (by decide)
    · exact isPrintable_of_ascii (by decide) (by decide)
    · exact isPrintable_of_ascii (by decide) (by decide)
    · cases hletter
  · exact isPrintable_of_mem_digits hn hc

theorem isPrintable_of_mem_shortEscape {quote c : Char} {cs : List Char}
    (hquote : quote = '\'' ∨ quote = '"') (h : shortEscape? quote c = some cs) {d : Char}
    (hd : d ∈ cs) :
    Printable.isPrintable d = true := by
  have hletters : letters.all fun d => 0x20 ≤ d.toNat ∧ d.toNat < 0x7F := by decide
  obtain ⟨letter, hletter, -, -, rfl⟩ := exists_shortEscape hquote h
  rw [List.mem_cons, List.mem_singleton] at hd
  rcases hd with rfl | rfl
  · exact isPrintable_of_ascii (by decide) (by decide)
  · have hascii := of_decide_eq_true (List.all_eq_true.mp hletters d hletter)
    exact isPrintable_of_ascii hascii.1 hascii.2

theorem isPrintable_of_mem_text {s : Text} {c : Char} (h : c ∈ (text s).toList) :
    Printable.isPrintable c = true := by
  have hquote := quoteFor_cases s.toList
  have hprint : Printable.isPrintable (quoteFor s.toList) = true := by
    rcases hquote with hq | hq
    · rw [hq]; exact isPrintable_of_ascii (by decide) (by decide)
    · rw [hq]; exact isPrintable_of_ascii (by decide) (by decide)
  rw [text, toList_encode, List.mem_cons, List.mem_append, List.mem_flatMap,
    List.mem_singleton] at h
  rcases h with rfl | ⟨d, -, hc⟩ | rfl
  · exact hprint
  · have hd : d.toNat < 16 ^ 8 := Nat.lt_trans d.toNat_lt (by decide)
    cases d with
    | surrogate n => exact isPrintable_of_mem_numberEscape hd hc
    | char d =>
      simp only [shown] at hc
      cases hshort : shortEscape? (quoteFor s.toList) d with
      | some cs =>
        rw [hshort, Option.getD_some] at hc
        exact isPrintable_of_mem_shortEscape hquote hshort hc
      | none =>
        rw [hshort, Option.getD_none] at hc
        split at hc
        · next hplain => rwa [List.mem_singleton.mp hc]
        · exact isPrintable_of_mem_numberEscape hd hc
  · exact hprint

theorem not_isPrintable_of_control {c : Char} (h : c.toNat < 0x20) :
    Printable.isPrintable c = false := by
  have hall : ∀ n < 0x20, Printable.isPrintable (Char.ofNat n) = false := by decide +kernel
  have hc := hall c.toNat h
  rwa [Char.ofNat_toNat] at hc

theorem shown_of_isPrintable {quote c : Char} (hc : Printable.isPrintable c = true)
    (hquote : c ≠ quote) (hbackslash : c ≠ '\\') :
    shown Printable.isPrintable quote (char c) = [c] := by
  have hcontrol : ∀ d : Char, d.toNat < 0x20 → c ≠ d := by
    rintro d hd rfl
    rw [not_isPrintable_of_control hd] at hc
    cases hc
  have htab := hcontrol '\t' (by decide)
  have hline := hcontrol '\n' (by decide)
  have hreturn := hcontrol '\r' (by decide)
  simp [shown, shortEscape?, hc, hquote, hbackslash, htab, hline, hreturn]

theorem text_ofString {s : String} (h : ∀ c ∈ s.toList,
    Printable.isPrintable c = true ∧ c ≠ '\'' ∧ c ≠ '"' ∧ c ≠ '\\') :
    text s = "'" ++ s ++ "'" := by
  have hquote : quoteFor (s.toList.map char) = '\'' := by
    have hmem : char '\'' ∉ s.toList.map char := by
      rintro hmem
      obtain ⟨c, hc, heq⟩ := List.mem_map.mp hmem
      exact (h c hc).2.1 (CodePoint.char.inj heq)
    simp [quoteFor, hmem]
  have hshown : ∀ cs : List Char, (∀ c ∈ cs, c ∈ s.toList) →
      (cs.map char).flatMap (shown Printable.isPrintable '\'') = cs := by
    intro cs hcs
    induction cs with
    | nil => rfl
    | cons c cs ih =>
      obtain ⟨hprint, hc, -, hbackslash⟩ := h c (hcs c List.mem_cons_self)
      rw [List.map_cons, List.flatMap_cons, shown_of_isPrintable hprint hc hbackslash,
        ih fun d hd => hcs d (List.mem_cons_of_mem c hd), List.singleton_append]
  rw [← String.toList_inj, text, toList_encode, Text.toList_ofString, hquote, hshown _ fun _ => id]
  simp

end Quoted

end DebugMetadata
