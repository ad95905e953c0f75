import Mathlib.Data.List.TakeDrop
import Mathlib.Data.List.TakeWhile
import DebugMetadata.Uri.Path

/-!
# Authorities

The path of a URI is found unless the authority before it is refused. An
authority is fit exactly if it has no brackets or its host in brackets is an
address, and no character of it hides a delimiter (`exists_path_iff`).
-/

namespace DebugMetadata

namespace Uri

open CodePoint (char)

/-! ## Cuts -/

section
variable {α : Type} [DecidableEq α]

omit [DecidableEq α] in
theorem span_eq_iff {p : α → Bool} {s before behind : List α} :
    s.span p = (before, behind) ↔ s = before ++ behind ∧ (∀ c ∈ before, p c = true) ∧
      ∀ c ∈ behind.head?, p c = false := by
  rw [List.span_eq_takeWhile_dropWhile, Prod.mk.injEq]
  constructor
  · intro h
    obtain ⟨rfl, rfl⟩ := h
    refine ⟨List.takeWhile_append_dropWhile.symm, fun c hc => List.mem_takeWhile_imp hc,
      fun c hc => ?_⟩
    have hhead := List.head?_dropWhile_not p s
    rw [Option.mem_def.mp hc] at hhead
    simpa using hhead
  · intro h
    obtain ⟨rfl, hbefore, hbehind⟩ := h
    rw [List.takeWhile_append_of_pos hbefore, List.dropWhile_append_of_pos hbefore]
    cases behind with
    | nil => simp
    | cons c behind => simp [hbehind c rfl]

theorem span_ne_eq_iff {sep : α} {s before behind : List α} :
    s.span (· != sep) = (before, behind) ↔
      s = before ++ behind ∧ sep ∉ before ∧ ∀ c ∈ behind.head?, c = sep := by
  rw [span_eq_iff]
  simp only [bne_iff_ne, bne_eq_false_iff_eq, ne_eq, List.forall_mem_ne']

theorem cut_inj {sep : α} {before before' behind behind' : List α} (h : sep ∉ before)
    (h' : sep ∉ before') (heq : before ++ sep :: behind = before' ++ sep :: behind') :
    before = before' ∧ sep :: behind = sep :: behind' := by
  have hcut : (before ++ sep :: behind).span (· != sep) = (before, sep :: behind) :=
    span_ne_eq_iff.mpr ⟨rfl, h, by simp⟩
  have hcut' : (before ++ sep :: behind).span (· != sep) = (before', sep :: behind') :=
    span_ne_eq_iff.mpr ⟨heq, h', by simp⟩
  rw [hcut] at hcut'
  exact Prod.mk.inj hcut'

end

/-! ## Hosts -/

/-- The text behind the user information of an authority, which ends at its last `@`. -/
def BehindUser (authority text : List CodePoint) : Prop :=
  char '@' ∉ text ∧ (authority = text ∨ ∃ user, authority = user ++ char '@' :: text)

theorem behindUser_iff {authority text : List CodePoint} :
    BehindUser authority text ↔ text = (authority.reverse.takeWhile (· != char '@')).reverse := by
  constructor
  · intro h
    obtain ⟨hat, h⟩ := h
    -- read backwards, the user information starts at the first sign
    have hcut : ∃ user, authority.reverse.span (· != char '@') = (text.reverse, user) := by
      simp only [span_ne_eq_iff, List.mem_reverse, hat, not_false_eq_true, true_and]
      obtain rfl | ⟨user, rfl⟩ := h
      · exact ⟨[], by simp⟩
      · exact ⟨char '@' :: user.reverse, by simp⟩
    obtain ⟨user, hcut⟩ := hcut
    rw [List.span_eq_takeWhile_dropWhile, Prod.mk.injEq] at hcut
    rw [hcut.1, List.reverse_reverse]
  · intro h
    have hcut : authority.reverse.span (· != char '@') =
        (text.reverse, authority.reverse.dropWhile (· != char '@')) := by
      rw [List.span_eq_takeWhile_dropWhile, h, List.reverse_reverse]
    obtain ⟨hauthority, hat, hsep⟩ := span_ne_eq_iff.mp hcut
    refine ⟨by simpa using hat, ?_⟩
    cases hu : authority.reverse.dropWhile (· != char '@') with
    | nil =>
      rw [hu, List.append_nil, List.reverse_inj] at hauthority
      exact .inl hauthority
    | cons c user =>
      rw [hu] at hauthority hsep
      obtain rfl := hsep c rfl
      apply Or.inr
      exact ⟨user.reverse, by rw [← List.reverse_inj, hauthority]; simp⟩

/-- The host at the front of a text that is no user information. It is in brackets,
of which the closing one may have come up in the user information only, or else
ends at the first colon. -/
inductive HasHost : List CodePoint → List CodePoint → Prop
  | closed {host behind : List CodePoint} : char ']' ∉ host → (∀ c ∈ behind.head?, c = char ':') →
      HasHost (char '[' :: (host ++ char ']' :: behind)) host
  | unclosed {host : List CodePoint} : char ']' ∉ host → HasHost (char '[' :: host) host
  | plain {text : List CodePoint} : char '[' ∉ text → HasHost text (text.takeWhile (· != char ':'))

section
variable {cs behind text host : List CodePoint}

theorem hasHost_closed_iff (h : char ']' ∉ cs) :
    HasHost (char '[' :: (cs ++ char ']' :: behind)) host ↔
      host = cs ∧ ∀ c ∈ behind.head?, c = char ':' := by
  constructor
  · intro hhost
    generalize htext : char '[' :: (cs ++ char ']' :: behind) = text at hhost
    cases hhost with
    | closed hclose hport =>
      obtain ⟨rfl, hbehind⟩ := cut_inj h hclose (List.cons.inj htext).2
      cases hbehind
      exact ⟨rfl, hport⟩
    | unclosed hclose =>
      rw [← (List.cons.inj htext).2] at hclose
      simp at hclose
    | plain hopen =>
      rw [← htext] at hopen
      simp at hopen
  · intro hhost
    rw [hhost.1]
    exact .closed h hhost.2

theorem hasHost_unclosed_iff (h : char ']' ∉ cs) : HasHost (char '[' :: cs) host ↔ host = cs := by
  constructor
  · intro hhost
    cases hhost with
    | closed hclose hport => simp at h
    | unclosed hclose => rfl
    | plain hopen => simp at hopen
  · intro hhost
    rw [hhost]
    exact .unclosed h

theorem hasHost_plain_iff (h : char '[' ∉ text) : HasHost text host ↔
    host = text.takeWhile (· != char ':') := by
  constructor
  · intro hhost
    cases hhost with
    | closed hclose hport => simp at h
    | unclosed hclose => simp at h
    | plain hopen => rfl
  · intro hhost
    rw [hhost]
    exact .plain h

theorem not_hasHost {c : CodePoint} (hc : c ≠ char '[') :
    ¬ HasHost (c :: (cs ++ char '[' :: behind)) host := by
  intro hhost
  generalize htext : c :: (cs ++ char '[' :: behind) = text at hhost
  cases hhost with
  | closed hclose hport => exact hc (List.cons.inj htext).1
  | unclosed hclose => exact hc (List.cons.inj htext).1
  | plain hopen =>
    rw [← htext] at hopen
    simp at hopen

end

/-- What an authority with brackets may have as its host. -/
def IsHost (host : List CodePoint) : Prop := isAddress host = true ∨ isFutureAddress host = true

theorem head?_of_isFutureAddress {host : List CodePoint} (h : isFutureAddress host = true) :
    host.head? = some (char 'v') := by
  unfold isFutureAddress at h
  split at h
  · rfl
  · cases h

theorem isGrouped_letter (group : List Char) (groups : List (List Char)) :
    isGrouped (('v' :: group) :: groups) = false := by
  have hgroup : isGroup ('v' :: group) = false := by
    simp [isGroup, show Hex.isDigit 'v' = false from rfl]
  unfold isGrouped
  split
  · simp [hgroup]
  · next i hgaps =>
    -- a gap is never at the front, so the first group is on the side before it
    have hi : 0 < i := by
      have hmem : i ∈ gaps (('v' :: group) :: groups) := by simp [hgaps]
      simp only [gaps, List.mem_filter, Bool.and_eq_true, decide_eq_true_eq] at hmem
      omega
    obtain ⟨i, rfl⟩ : ∃ j, i = j + 1 := ⟨i - 1, by omega⟩
    simp [isSide, hgroup]
  · rfl

theorem groups?_letter {cs : List Char} {groups : List (List Char)}
    (h : groups? ('v' :: cs) = some groups) : ∃ group more, groups = ('v' :: group) :: more := by
  obtain ⟨part, parts, hparts⟩ := List.exists_cons_of_ne_nil (Separated.parts_ne_nil ':' cs)
  simp only [groups?, Separated.parts_cons, hparts,
    Separated.extend_cons (show 'v' ≠ ':' by decide)] at h
  split at h
  · cases h
  next hlength =>
  split at h
  · next last hlast =>
    split at h
    · split at h
      · obtain ⟨q, qs, rfl⟩ : ∃ q qs, parts = q :: qs :=
          List.exists_cons_of_ne_nil (by rintro rfl; simp at hlength)
        cases h
        exact ⟨part, _, rfl⟩
      · cases h
    · cases h
      exact ⟨part, parts, rfl⟩
  · cases h

theorem isAddress_letter (cs : List CodePoint) : isAddress (char 'v' :: cs) = false := by
  -- no address starts with the letter of an address of a later version
  have hgroups : (((CodePoint.chars? (char 'v' :: cs.takeWhile (· != char '%'))).bind groups?).map
      isGrouped).getD false = false := by
    rw [CodePoint.chars?_cons]
    cases CodePoint.chars? (cs.takeWhile (· != char '%')) with
    | none => rfl
    | some letters =>
      simp only [Option.map_some, Option.bind_some]
      cases h : groups? ('v' :: letters) with
      | none => rfl
      | some groups =>
        obtain ⟨group, more, rfl⟩ := groups?_letter h
        exact isGrouped_letter group more
  have hcut : (char 'v' :: cs).span (· != char '%') =
      (char 'v' :: cs.takeWhile (· != char '%'), cs.dropWhile (· != char '%')) := by
    simp [List.span_eq_takeWhile_dropWhile]
  unfold isAddress
  rw [hcut]
  simp only [hgroups, Bool.and_false]

theorem checkHost_eq_ok_iff {host : List CodePoint} : checkHost host = .ok () ↔ IsHost host := by
  unfold checkHost IsHost
  by_cases hv : host.head? = some (char 'v')
  · obtain ⟨cs, rfl⟩ : ∃ cs, host = char 'v' :: cs := List.head?_eq_some_iff.mp hv
    simp [isAddress_letter]
  · have hfuture : isFutureAddress host ≠ true := mt head?_of_isFutureAddress hv
    simp [hv, hfuture]

theorem checkBracketed_eq_ok_iff {authority : List CodePoint} : checkBracketed authority = .ok () ↔
    ∃ text host, BehindUser authority text ∧ HasHost text host ∧ IsHost host := by
  unfold checkBracketed
  simp only [behindUser_iff, exists_and_left, exists_eq_left]
  generalize (authority.reverse.takeWhile (· != char '@')).reverse = text
  cases hopen : text.span (· != char '[') with
  | mk before rest =>
  obtain ⟨rfl, hbefore, hrest⟩ := span_ne_eq_iff.mp hopen
  cases rest with
  | nil => simp [hasHost_plain_iff hbefore, checkHost_eq_ok_iff]
  | cons c bracketed =>
    obtain rfl := hrest c rfl
    dsimp only
    cases hclose : bracketed.span (· != char ']') with
    | mk host tail =>
    obtain ⟨rfl, hhost, htail⟩ := span_ne_eq_iff.mp hclose
    cases before with
    | cons b before =>
      have hb : b ≠ char '[' := by
        rintro rfl
        simp at hbefore
      simp [not_hasHost hb]
    | nil =>
      cases tail with
      | nil => simp [hasHost_unclosed_iff hhost, checkHost_eq_ok_iff]
      | cons d behind =>
        obtain rfl := htail d rfl
        cases behind with
        | nil => simp [hasHost_closed_iff hhost, checkHost_eq_ok_iff]
        | cons d behind =>
          by_cases hd : d = char ':'
          · simp [hasHost_closed_iff hhost, checkHost_eq_ok_iff, hd]
          · simp [hasHost_closed_iff hhost, hd]

/-! ## Authorities -/

/-- What comes behind two slashes, up to the next slash, question mark or number
sign. -/
def HasAuthority (s authority : List CodePoint) : Prop :=
  ∃ rest, withoutScheme (cleaned s) = char '/' :: char '/' :: (authority ++ rest) ∧
    (∀ c ∈ authority, c ≠ char '/' ∧ c ≠ char '?' ∧ c ≠ char '#') ∧
    ∀ c ∈ rest.head?, c = char '/' ∨ c = char '?' ∨ c = char '#'

/-- There are no brackets, or there are both and the host is an address. -/
def BracketsFit (authority : List CodePoint) : Prop :=
  char '[' ∉ authority ∧ char ']' ∉ authority ∨
    char '[' ∈ authority ∧ char ']' ∈ authority ∧
    ∃ text host, BehindUser authority text ∧ HasHost text host ∧ IsHost host

structure Fits (authority : List CodePoint) : Prop where
  brackets : BracketsFit authority
  characters : ∀ c ∈ authority, c.toNat ∉ hiddenDelimiters

theorem checkBrackets_eq_ok_iff {authority : List CodePoint} :
    checkBrackets authority = .ok () ↔ BracketsFit authority := by
  unfold checkBrackets BracketsFit
  by_cases hopen : char '[' ∈ authority
  · by_cases hclose : char ']' ∈ authority
    · simp [hopen, hclose, checkBracketed_eq_ok_iff]
    · simp [hopen, hclose]
  · by_cases hclose : char ']' ∈ authority
    · simp [hopen, hclose]
    · simp [hopen, hclose]

theorem checkCharacters_eq_ok_iff {authority : List CodePoint} :
    checkCharacters authority = .ok () ↔
    ∀ c ∈ authority, c.toNat ∉ hiddenDelimiters := by
  unfold checkCharacters
  cases h : authority.any fun c => hiddenDelimiters.contains c.toNat with
  | true => simpa using h
  | false => simpa using h

theorem fits_iff {authority : List CodePoint} :
    Fits authority ↔ checkBrackets authority = .ok () ∧ checkCharacters authority = .ok () := by
  rw [checkBrackets_eq_ok_iff, checkCharacters_eq_ok_iff]
  exact ⟨fun h => ⟨h.brackets, h.characters⟩, fun h => ⟨h.1, h.2⟩⟩

theorem hasAuthority_iff {s rest authority : List CodePoint}
    (h : withoutScheme (cleaned s) = char '/' :: char '/' :: rest) :
    HasAuthority s authority ↔ authority = (rest.span inAuthority).1 := by
  have hcut : HasAuthority s authority ↔
      ∃ behind, rest.span inAuthority = (authority, behind) := by
    simp only [HasAuthority, h, span_eq_iff, inAuthority, List.cons.injEq, true_and,
      Bool.and_eq_true, bne_iff_ne, Bool.and_eq_false_iff, bne_eq_false_iff_eq, and_assoc, or_assoc]
  rw [hcut]
  constructor
  · intro hspan
    obtain ⟨behind, hspan⟩ := hspan
    rw [hspan]
  · intro hspan
    exact ⟨_, Prod.ext hspan.symm rfl⟩

theorem exists_path_iff {s : List CodePoint} :
    (∃ p, path s = .ok p) ↔ ∀ authority, HasAuthority s authority → Fits authority := by
  unfold path
  split
  · next rest h =>
    simp only [hasAuthority_iff h, forall_eq, fits_iff]
    cases rest.span inAuthority with
    | mk authority behind =>
    cases hbrackets : checkBrackets authority with
    | error fault => simp [bind, Except.bind]
    | ok _ =>
      cases hcharacters : checkCharacters authority with
      | error fault => simp [bind, Except.bind]
      | ok _ => simp [bind, Except.bind]
  · next hne =>
    have hnone : ∀ authority, ¬ HasAuthority s authority := by
      intro authority h
      obtain ⟨rest, h, -⟩ := h
      exact hne _ h
    simp [hnone]

/-! ## Plain authorities -/

theorem withoutScheme_suffix (s : List CodePoint) : withoutScheme s <:+ s := by
  unfold withoutScheme
  split
  · next first more c rest h =>
    obtain ⟨hs, -⟩ := span_ne_eq_iff.mp h
    split
    · rw [hs]
      exact (List.suffix_cons c rest).trans (List.suffix_append _ _)
    · exact List.suffix_refl s
  · exact List.suffix_refl s

theorem cleaned_sublist (s : List CodePoint) : (cleaned s).Sublist s :=
  List.filter_sublist.trans (List.dropWhile_suffix _).sublist

theorem HasAuthority.subset {s authority : List CodePoint} (h : HasAuthority s authority) :
    authority ⊆ s := by
  obtain ⟨rest, h, -⟩ := h
  intro c hc
  have hmem : c ∈ withoutScheme (cleaned s) := by simp [h, hc]
  exact (cleaned_sublist s).subset ((withoutScheme_suffix _).subset hmem)

/-- A text has no brackets and no characters that hide a delimiter. -/
def IsPlain (s : List CodePoint) : Prop :=
  ∀ c ∈ s, c ≠ char '[' ∧ c ≠ char ']' ∧ c.toNat ∉ hiddenDelimiters

theorem exists_path_of_plain {s : List CodePoint} (h : IsPlain s) : ∃ p, path s = .ok p := by
  rw [exists_path_iff]
  intro authority hauthority
  have hplain : IsPlain authority := fun c hc => h c (hauthority.subset hc)
  refine ⟨.inl ⟨?_, ?_⟩, fun c hc => (hplain c hc).2.2⟩
  · exact fun hc => (hplain _ hc).1 rfl
  · exact fun hc => (hplain _ hc).2.1 rfl

end Uri

end DebugMetadata
