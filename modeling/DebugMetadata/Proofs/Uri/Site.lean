import Mathlib
import DebugMetadata.Proofs.Uri.Authority

/-!
# Sites

A site is the part of a web address up to the slash behind its host. The path of an
address is what is written behind its site (`path_site_append`).
-/

namespace DebugMetadata

namespace Uri

open CodePoint (char)

def isHostChar (c : CodePoint) : Bool :=
  c.satisfies Char.isAlphanum || c == char '.' || c == char '-'

def isPathChar (c : CodePoint) : Bool :=
  isHostChar c || c == char '_' || c == char '~' || c == char '/'

inductive IsSite : List CodePoint → Prop
  | http {host : List CodePoint} : (∀ c ∈ host, isHostChar c = true) →
      IsSite (("http://" : Text).toList ++ host ++ [char '/'])
  | https {host : List CodePoint} : (∀ c ∈ host, isHostChar c = true) →
      IsSite (("https://" : Text).toList ++ host ++ [char '/'])

/-- A directory below a site, or the site itself. -/
def IsDirectory (base : List CodePoint) : Prop :=
  base = [] ∨ (∀ c ∈ base, isPathChar c = true) ∧ base.getLast? = some (char '/')

/-! ## Characters -/

theorem isPathChar_of_isHostChar {c : CodePoint} (h : isHostChar c = true) :
    isPathChar c = true := by
  simp [isPathChar, h]

theorem toNat_of_isAlphanum {c : Char} (h : c.isAlphanum = true) :
    0x30 ≤ c.toNat ∧ c.toNat ≤ 0x7A := by
  simp only [Char.isAlphanum, Char.isAlpha, Char.isUpper, Char.isLower, Char.isDigit,
    Bool.or_eq_true, Bool.and_eq_true, decide_eq_true_eq, UInt32.le_iff_toNat_le, ge_iff_le] at h
  have hvalue : c.toNat = c.val.toNat := rfl
  have hbounds : '0'.val.toNat = 0x30 ∧ '9'.val.toNat = 0x39 ∧ 'A'.val.toNat = 0x41 ∧
    'Z'.val.toNat = 0x5A ∧
    'a'.val.toNat = 0x61 ∧ 'z'.val.toNat = 0x7A := by decide
  omega

theorem toNat_of_isPathChar {c : CodePoint} (h : isPathChar c = true) :
    0x20 < c.toNat ∧ c.toNat < 0x80 := by
  simp only [isPathChar, isHostChar, Bool.or_eq_true, beq_iff_eq, or_assoc] at h
  rcases h with h | rfl | rfl | rfl | rfl | rfl
  · cases c with
    | char c =>
      have := toNat_of_isAlphanum h
      rw [CodePoint.toNat_char]
      omega
    | surrogate n => cases h
  · decide
  · decide
  · decide
  · decide
  · decide

section
variable {s : List CodePoint}

theorem not_mem_of_isPathChar (h : ∀ c ∈ s, isPathChar c = true) {d : CodePoint}
    (hd : isPathChar d = false) : d ∉ s := by
  intro hmem
  simp [h d hmem] at hd

theorem cleaned_of_visible (h : ∀ c ∈ s, 0x20 < c.toNat) : cleaned s = s := by
  have hblanks : s.dropWhile (fun c => c.toNat ≤ 0x20) = s := by
    cases s with
    | nil => rfl
    | cons c s =>
      rw [List.forall_mem_cons] at h
      simp [h.1]
  unfold cleaned
  rw [hblanks, List.filter_eq_self]
  intro c hc
  have hne : ∀ d : CodePoint, d.toNat ≤ 0x20 → c ≠ d := by
    intro d hd hcd
    have := h c hc
    rw [hcd] at this
    omega
  simp [hne (char '\t') (by decide), hne (char '\n') (by decide), hne (char '\r') (by decide)]

theorem fits_of_isHostChar (h : ∀ c ∈ s, isHostChar c = true) : Fits s := by
  have hpath : ∀ c ∈ s, isPathChar c = true := fun c hc => isPathChar_of_isHostChar (h c hc)
  refine ⟨.inl ⟨not_mem_of_isPathChar hpath (by decide), not_mem_of_isPathChar hpath (by decide)⟩,
    ?_⟩
  intro c hc hhidden
  have hall : ∀ n ∈ hiddenDelimiters, 0x80 ≤ n := by decide
  have := hall _ hhidden
  have := toNat_of_isPathChar (hpath c hc)
  omega

theorem withoutQuery_of_isPathChar (h : ∀ c ∈ s, isPathChar c = true) : withoutQuery s = s := by
  unfold withoutQuery
  rw [List.takeWhile_eq_self_iff]
  intro c hc
  have hquery : c ≠ char '?' := fun hc' => not_mem_of_isPathChar h (by decide) (hc' ▸ hc)
  have hfragment : c ≠ char '#' := fun hc' => not_mem_of_isPathChar h (by decide) (hc' ▸ hc)
  simp [hquery, hfragment]

end

theorem IsDirectory.isPathChar {base : List CodePoint} (h : IsDirectory base) :
    ∀ c ∈ base, isPathChar c = true := by
  rcases h with rfl | h
  · simp
  · exact h.1

/-! ## Paths -/

theorem path_of_host {s host rest : List CodePoint}
    (h : withoutScheme (cleaned s) = char '/' :: char '/' :: (host ++ char '/' :: rest))
    (hhost : ∀ c ∈ host, isHostChar c = true) : path s = .ok (char '/' :: withoutQuery rest) := by
  have hspan : (host ++ char '/' :: rest).span inAuthority = (host, char '/' :: rest) := by
    rw [span_eq_iff]
    refine ⟨rfl, ?_, by simp [inAuthority]⟩
    intro c hc
    have hne : ∀ d, isHostChar d = false → c ≠ d := by
      intro d hd hcd
      simp [← hcd, hhost c hc] at hd
    simp [inAuthority, hne (char '/') (by decide), hne (char '?') (by decide),
      hne (char '#') (by decide)]
  obtain ⟨hbrackets, hcharacters⟩ := fits_iff.mp (fits_of_isHostChar hhost)
  unfold path
  simp only [h, hspan, hbrackets, hcharacters]
  simp [withoutQuery, bind, Except.bind]

theorem IsSite.isPathChar_or_colon {site : List CodePoint} (h : IsSite site) :
    ∀ c ∈ site, isPathChar c = true ∨ c = char ':' := by
  have happend : ∀ scheme host : List CodePoint,
    (∀ c ∈ scheme, isPathChar c = true ∨ c = char ':') →
      (∀ c ∈ host, isHostChar c = true) → ∀ c ∈ scheme ++ host ++ [char '/'],
        isPathChar c = true ∨ c = char ':' := by
    intro scheme host hscheme hhost c hc
    simp only [List.mem_append, List.mem_singleton, or_assoc] at hc
    rcases hc with hc | hc | rfl
    · exact hscheme c hc
    · exact .inl (isPathChar_of_isHostChar (hhost c hc))
    · decide
  cases h with
  | http hhost => exact happend _ _ (by decide) hhost
  | https hhost => exact happend _ _ (by decide) hhost

theorem path_site_append {site rest : List CodePoint} (hsite : IsSite site)
    (hrest : ∀ c ∈ rest, isPathChar c = true) : path (site ++ rest) = .ok (char '/' :: rest) := by
  have hcleaned : cleaned (site ++ rest) = site ++ rest := by
    apply cleaned_of_visible
    intro c hc
    rcases List.mem_append.mp hc with hc | hc
    · rcases hsite.isPathChar_or_colon c hc with hc | rfl
      · exact (toNat_of_isPathChar hc).1
      · decide
    · exact (toNat_of_isPathChar (hrest c hc)).1
  cases hsite with
  | @http host hhost =>
    have hscheme :
      withoutScheme (cleaned (("http://" : Text).toList ++ host ++ [char '/'] ++ rest)) =
        char '/' :: char '/' :: (host ++ char '/' :: rest) := by
      rw [hcleaned, List.append_assoc, List.append_assoc]; rfl
    rw [path_of_host hscheme hhost, withoutQuery_of_isPathChar hrest]
  | @https host hhost =>
    have hscheme :
      withoutScheme (cleaned (("https://" : Text).toList ++ host ++ [char '/'] ++ rest)) =
        char '/' :: char '/' :: (host ++ char '/' :: rest) := by
      rw [hcleaned, List.append_assoc, List.append_assoc]; rfl
    rw [path_of_host hscheme hhost, withoutQuery_of_isPathChar hrest]

end Uri

end DebugMetadata
