import DebugMetadata.Proofs.Draft.Basic
import DebugMetadata.Proofs.Session.Step

/-!
# Tokens of methods

A method goes by the number of its row, alone or behind the number of its table
(`ofMethodToken_eq`). It makes no difference to a session which of the two is given,
and any other number is refused before the file is looked at (`tokens_of_methods`).
-/

namespace DebugMetadata

namespace Handle

/-- The number of a row that a token can hold, or a whole token of the table of methods. -/
def IsMethodToken (token : Int) : Prop :=
  1 ≤ token ∧ token ≤ 0x00FFFFFF ∨ 0x06000001 ≤ token ∧ token ≤ 0x06FFFFFF

instance (token : Int) : Decidable (IsMethodToken token) := inferInstanceAs (Decidable (_ ∨ _))

/-- The method of a token, of which only the bits below the table number count. -/
def methodOf (token : Int) : Handle := ⟨Table.methodDef.number, token % 2 ^ 24⟩

theorem ofMethodToken_eq (token : Int) :
    ofMethodToken token =
      if IsMethodToken token then .ok (methodOf token) else .error (.notMethodToken token) := by
  have hsize : ((rowMask + 1 : Nat) : Int) = 2 ^ 24 := rfl
  have hnumber : (Table.methodDef.number : Int) = 6 := rfl
  have hiff : (token / 2 ^ 24 = 0 ∨ token / 2 ^ 24 = 6) ∧ token % 2 ^ 24 ≠ 0 ↔
      IsMethodToken token := by
    unfold IsMethodToken
    omega
  simp only [ofMethodToken, methodOf, hsize, hnumber, hiff]

theorem ofMethodToken_eq_ok_iff {token : Int} {method : Handle} :
    ofMethodToken token = .ok method ↔ IsMethodToken token ∧ method = methodOf token := by
  rw [ofMethodToken_eq]
  by_cases h : IsMethodToken token
  · simp [h, eq_comm]
  · simp [h]

theorem ofMethodToken_of_not {token : Int} (h : ¬ IsMethodToken token) :
    ofMethodToken token = .error (.notMethodToken token) := by
  rw [ofMethodToken_eq, if_neg h]

theorem ofMethodToken_row {row : Int} (h₁ : 1 ≤ row) (h₂ : row ≤ 0xFFFFFF) :
    ofMethodToken row = .ok (methodOf row) ∧
      ofMethodToken (0x06000000 + row) = .ok (methodOf row) := by
  have hsame : methodOf (0x06000000 + row) = methodOf row := by
    simp only [methodOf, mk.injEq, true_and]
    omega
  constructor
  · exact ofMethodToken_eq_ok_iff.mpr ⟨.inl ⟨h₁, h₂⟩, rfl⟩
  · exact ofMethodToken_eq_ok_iff.mpr ⟨.inr ⟨by omega, by omega⟩, hsame.symm⟩

end Handle

/-! ## Results that differ in wording -/

/-- The same value, or errors of the same kind. -/
def SameKind {α : Type} (x y : Except Error α) : Prop :=
  x.mapError Error.kind = y.mapError Error.kind

namespace SameKind

variable {α β : Type}

theorem refl (x : Except Error α) : SameKind x x := rfl

theorem bind (x : Except Error α) {f g : α → Except Error β} (h : ∀ a, SameKind (f a) (g a)) :
    SameKind (x >>= f) (x >>= g) := by
  cases x with
  | error e => exact refl _
  | ok a => exact h a

theorem map (form : α → β) {x y : Except Error α} (h : SameKind x y) :
    SameKind (x.map form) (y.map form) := by
  unfold SameKind at *
  cases x <;> cases y <;> simp_all [Except.map, Except.mapError]

end SameKind

namespace Session

theorem tupleNamesOf_sameKind (m : Image) (token token' : Int) (method : Handle) (i : Nat) :
    SameKind (tupleNamesOf m token method i) (tupleNamesOf m token' method i) := by
  unfold tupleNamesOf
  apply SameKind.bind
  intro runs
  split
  · rfl
  · rfl

theorem opened_sameKind {α : Type} (s : State) {question question' : Image → Except Error α}
    (h : ∀ m, SameKind (question m) (question' m)) :
    (opened s question).1 = (opened s question').1 ∧
      SameKind (opened s question).2 (opened s question').2 := by
  unfold opened
  cases s.file with
  | none => exact ⟨rfl, .refl _⟩
  | some file =>
    refine ⟨rfl, ?_⟩
    simp only
    cases Image.read file with
    | error e => exact .refl _
    | ok m => exact h m

section
variable (s : State) {token token' : Int} {method : Handle}

section
variable (h : Handle.ofMethodToken token = .ok method)
    (h' : Handle.ofMethodToken token' = .ok method)
include h h'

theorem step_hoistedScopes_eq : step s (.hoistedScopes token) = step s (.hoistedScopes token') := by
  simp only [step, h, h']

theorem step_tupleNames_sameKind (index : Int) :
    (step s (.tupleNames token index)).1 = (step s (.tupleNames token' index)).1 ∧
      SameKind (step s (.tupleNames token index)).2 (step s (.tupleNames token' index)).2 := by
  -- the token comes up again where a variable is missing, but only in the wording
  cases index with
  | negSucc i => simp only [step, h, h', SameKind, and_self]
  | ofNat i =>
    simp only [step, h, h']
    obtain ⟨hstate, hanswer⟩ :=
      opened_sameKind s fun m => tupleNamesOf_sameKind m token token' method i
    exact ⟨hstate, hanswer.map _⟩

end

theorem step_of_not_isMethodToken (h : ¬ Handle.IsMethodToken token) (index : Int) :
    step s (.hoistedScopes token) = (s, .error (.notMethodToken token)) ∧
      step s (.tupleNames token index) = (s, .error (.notMethodToken token)) := by
  simp only [step, Handle.ofMethodToken_of_not h, and_self]

/-- The tokens of methods are the row numbers of 24 bits without zero, and the same
numbers behind that of the table. A session answers for a row what it answers for the
whole token, or fails for both with an error of one kind, and either way is left in the
same state. For any other number it is not changed, so that the file is not even opened,
and the error is that of an invalid handle. -/
theorem tokens_of_methods :
    (∀ token method, Handle.ofMethodToken token = .ok method ↔
      Handle.IsMethodToken token ∧ method = ⟨Table.methodDef.number, token % 2 ^ 24⟩) ∧
    (∀ row index : Int, 1 ≤ row → row ≤ 0xFFFFFF →
      step s (.hoistedScopes row) = step s (.hoistedScopes (0x06000000 + row)) ∧
      (step s (.tupleNames row index)).1 = (step s (.tupleNames (0x06000000 + row) index)).1 ∧
      SameKind (step s (.tupleNames row index)).2
        (step s (.tupleNames (0x06000000 + row) index)).2) ∧
    ∀ token index : Int, ¬ Handle.IsMethodToken token →
      ∃ e : Error, e.kind = .invalidHandle ∧ Handle.ofMethodToken token = .error e ∧
        step s (.hoistedScopes token) = (s, .error e) ∧
        step s (.tupleNames token index) = (s, .error e) := by
  refine ⟨fun token method => Handle.ofMethodToken_eq_ok_iff, ?_, ?_⟩
  · intro row index h₁ h₂
    obtain ⟨hrow, hwhole⟩ := Handle.ofMethodToken_row h₁ h₂
    exact ⟨step_hoistedScopes_eq s hrow hwhole, step_tupleNames_sameKind s hrow hwhole index⟩
  · intro token index h
    exact ⟨.notMethodToken token, rfl, Handle.ofMethodToken_of_not h,
      step_of_not_isMethodToken s h index⟩

end

/-- A variable that is missing for either name of the first method, and a negative number
that would be the first method's token if it were cut to 32 bits. -/
theorem sample_tokens_of_methods :
    let s := State.initial 100 (some Draft.sample.file)
    (1 ≤ (1 : Int) ∧ (1 : Int) ≤ 0xFFFFFF ∧
      SameKind (step s (.tupleNames 1 9)).2 (step s (.tupleNames 0x06000001 9)).2) ∧
    ¬ Handle.IsMethodToken (0x06000001 - 2 ^ 32) ∧ ∃ e : Error, e.kind = .invalidHandle ∧
      step s (.tupleNames (0x06000001 - 2 ^ 32) 0) = (s, .error e) := by
  intro s
  obtain ⟨-, hsame, hrefused⟩ := tokens_of_methods s
  obtain ⟨-, -, hkind⟩ := hsame 1 9 (by decide) (by decide)
  have hno : ¬ Handle.IsMethodToken (0x06000001 - 2 ^ 32) := by decide
  obtain ⟨e, he, -, -, hstep⟩ := hrefused _ 0 hno
  exact ⟨⟨by decide, by decide, hkind⟩, hno, e, he, hstep⟩

end Session

end DebugMetadata
