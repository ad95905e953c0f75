/-!
# Texts

A text is a list of code points. Most of them are characters. The others are the
surrogates: two of them stand for a character in units of 16 bits, and one that
stands alone is a code point of its own. Strings hold characters only, so a text
can hold more than a string.
-/

namespace DebugMetadata

inductive CodePoint where
  | char (c : Char)
  | surrogate (n : Fin 0x800)
  deriving DecidableEq, Repr

namespace CodePoint

def toNat : CodePoint → Nat
  | char c => c.toNat
  | surrogate n => 0xD800 + n

def ofNat (n : Nat) : CodePoint :=
  if h : 0xD800 ≤ n ∧ n < 0xE000 then surrogate ⟨n - 0xD800, by omega⟩ else char (Char.ofNat n)

def satisfies (p : Char → Bool) : CodePoint → Bool
  | char c => p c
  | surrogate _ => false

def char? : CodePoint → Option Char
  | char c => some c
  | surrogate _ => none

def chars? (cs : List CodePoint) : Option (List Char) := cs.mapM char?

@[simp] theorem toNat_char (c : Char) : (char c).toNat = c.toNat := rfl

theorem ofNat_toNat (c : CodePoint) : ofNat c.toNat = c := by
  cases c with
  | char c =>
    have hv : c.toNat < 0xD800 ∨ 0xDFFF < c.toNat ∧ c.toNat < 0x110000 := c.valid
    rw [ofNat, toNat_char, dif_neg (by omega), Char.ofNat_toNat]
  | surrogate n =>
    have hn : 0xD800 ≤ 0xD800 + n.val ∧ 0xD800 + n.val < 0xE000 := by omega
    simp [ofNat, toNat, hn]

theorem ofNat_toNat_char (c : Char) : ofNat c.toNat = char c := ofNat_toNat (char c)

theorem chars?_cons (c : Char) (cs : List CodePoint) :
    chars? (char c :: cs) = (chars? cs).map (c :: ·) := by
  rw [chars?, List.mapM_cons, ← chars?]
  cases chars? cs <;> rfl

theorem toNat_lt (c : CodePoint) : c.toNat < 0x110000 := by
  cases c with
  | char c =>
    have hv : c.toNat < 0xD800 ∨ 0xDFFF < c.toNat ∧ c.toNat < 0x110000 := c.valid
    rw [toNat_char]
    omega
  | surrogate n =>
    rw [toNat]
    omega

theorem toNat_inj {c d : CodePoint} : c.toNat = d.toNat ↔ c = d := by
  constructor
  · intro h
    rw [← ofNat_toNat c, h, ofNat_toNat]
  · exact congrArg toNat

end CodePoint

structure Text where ofList ::
  toList : List CodePoint
  deriving DecidableEq, Repr

namespace Text

def ofString (s : String) : Text := ofList (s.toList.map .char)

instance : Coe String Text := ⟨ofString⟩

@[simp] theorem toList_ofList (cs : List CodePoint) : (ofList cs).toList = cs := rfl

@[simp] theorem ofList_toList (s : Text) : ofList s.toList = s := rfl

theorem toList_inj {s t : Text} : s.toList = t.toList ↔ s = t := by
  cases s
  cases t
  simp

theorem toList_ofString (s : String) : (ofString s).toList = s.toList.map .char := rfl

theorem ofString_inj {s t : String} : ofString s = ofString t ↔ s = t := by
  rw [← toList_inj, toList_ofString, toList_ofString,
    List.map_inj_right (fun _ _ h => CodePoint.char.inj h), String.toList_inj]

end Text

end DebugMetadata
