import Mathlib
import DebugMetadata.Bytes.Compressed

/-!
# Compressed integers one after the other

What is read off the front of some bytes is what was written there, at the width that
the first byte announces (`read_eq_ok_iff`). So integers need nothing between them:
whatever their widths are, reading as many as were written gives them all and goes on
at the byte behind them (`readMany_writeAll`), and all that is ever read is a list of
integers that the bytes start with (`exists_writeAll_of_readMany`).
-/

namespace DebugMetadata

namespace Compressed

/-! ## Widths -/

/-- The high bits of a first byte that announce a width. -/
def Width.Announced (lead : UInt8) : Width → Prop
  | one => lead &&& 0x80 = 0
  | two => lead &&& 0xC0 = 0x80
  | four => lead &&& 0xE0 = 0xC0

instance (lead : UInt8) : (w : Width) → Decidable (w.Announced lead)
  | .one => inferInstanceAs (Decidable (lead &&& 0x80 = 0))
  | .two => inferInstanceAs (Decidable (lead &&& 0xC0 = 0x80))
  | .four => inferInstanceAs (Decidable (lead &&& 0xE0 = 0xC0))

def Width.highBits : Width → Nat
  | one => 0
  | two => 0x8000
  | four => 0xC0000000

theorem width?_eq_some_iff {lead : UInt8} {w : Width} :
    width? lead = some w ↔ w.Announced lead := by
  have every : ∀ i : Fin 256, ∀ w ∈ [Width.one, .two, .four],
      width? (UInt8.ofNat i) = some w ↔ w.Announced (UInt8.ofNat i) := by decide +kernel
  have h := every ⟨lead.toNat, lead.toNat_lt⟩ w (by cases w <;> simp)
  simpa using h

theorem width?_eq_none_iff {lead : UInt8} : width? lead = none ↔ 0xE0 ≤ lead := by
  have hbound : (0xE0 : UInt8).toNat = 0xE0 := rfl
  rw [width?_eq, UInt8.le_iff_toNat_le, hbound]
  grind

theorem length_write (w : Width) (n : Nat) : (write w n).length = w.size := by
  cases w <;> rfl

theorem lt_bound_narrowest {n : Nat} (h : n < 2 ^ 29) : n < (narrowest n).bound := by
  unfold narrowest
  split
  · assumption
  split
  · assumption
  · exact h

/-! ## One integer -/

theorem read_cons (lead : UInt8) (bs : List UInt8) :
    read (lead :: bs) =
      match width? lead with
      | none => .error (.badLead lead)
      | some w =>
        if bs.length + 1 < w.size then .error .endOfData
        else .ok (bigEndian (lead :: bs.take (w.size - 1)) - w.highBits, bs.drop (w.size - 1)) := by
  cases hw : width? lead with
  | none => simp [read, hw]
  | some w =>
    cases w with
    | one => simp [read, hw, Width.size, Width.highBits, bigEndian]
    | two => rcases bs with _ | ⟨a, bs⟩ <;> simp [read, hw, Width.size, Width.highBits]
    | four =>
      rcases bs with _ | ⟨a, _ | ⟨b, _ | ⟨c, bs⟩⟩⟩ <;> simp [read, hw, Width.size, Width.highBits]

theorem ofNat_eq {n : Nat} {b : UInt8} (h : n % 256 = b.toNat) : UInt8.ofNat n = b := by
  rw [← UInt8.toNat_inj, toNat_ofNat, h]

theorem write_bigEndian {lead : UInt8} {w : Width} {bs : List UInt8} (hw : width? lead = some w)
    (hl : bs.length + 1 = w.size) :
    bigEndian (lead :: bs) - w.highBits < w.bound ∧
      write w (bigEndian (lead :: bs) - w.highBits) = lead :: bs := by
  rw [width?_eq] at hw
  cases w with
  | one =>
    have hlead : lead.toNat < 0x80 := by grind
    obtain rfl : bs = [] := List.length_eq_zero_iff.mp (Nat.succ.inj hl)
    simp only [bigEndian, Width.highBits, Width.bound, write, List.foldl, List.cons.injEq, and_true]
    exact ⟨by omega, ofNat_eq (by omega)⟩
  | two =>
    have hlead : 0x80 ≤ lead.toNat ∧ lead.toNat < 0xC0 := by grind
    obtain ⟨a, rfl⟩ : ∃ a, bs = [a] := List.length_eq_one_iff.mp (Nat.succ.inj hl)
    have ha := a.toNat_lt
    simp only [bigEndian, Width.highBits, Width.bound, write, List.foldl, List.cons.injEq, and_true]
    exact ⟨by omega, ofNat_eq (by omega), ofNat_eq (by omega)⟩
  | four =>
    have hlead : 0xC0 ≤ lead.toNat ∧ lead.toNat < 0xE0 := by grind
    obtain ⟨a, b, c, rfl⟩ : ∃ a b c, bs = [a, b, c] := List.length_eq_three.mp (Nat.succ.inj hl)
    have ha := a.toNat_lt
    have hb := b.toNat_lt
    have hc := c.toNat_lt
    simp only [bigEndian, Width.highBits, Width.bound, write, List.foldl, List.cons.injEq, and_true]
    exact ⟨by omega, ofNat_eq (by omega), ofNat_eq (by omega), ofNat_eq (by omega),
      ofNat_eq (by omega)⟩

section
variable {bs rest : List UInt8} {n : Nat}

theorem read_eq_ok_iff :
    read bs = .ok (n, rest) ↔ ∃ w : Width, n < w.bound ∧ bs = write w n ++ rest := by
  constructor
  · intro h
    cases bs with
    | nil => cases h
    | cons lead bs =>
      rw [read_cons] at h
      split at h
      · cases h
      next w hw =>
      split at h
      · cases h
      next hs =>
      obtain ⟨hn, rfl⟩ := Prod.mk.inj (Except.ok.inj h)
      have hl : (bs.take (w.size - 1)).length + 1 = w.size := by
        have : 0 < w.size := by cases w <;> decide
        rw [List.length_take]; omega
      obtain ⟨hbound, hwrite⟩ := write_bigEndian hw hl
      rw [hn] at hbound hwrite
      refine ⟨w, hbound, ?_⟩
      rw [hwrite, List.cons_append, List.take_append_drop]
  · rintro ⟨w, hn, rfl⟩
    exact read_write hn rest

theorem read_append (more : List UInt8) (h : read bs = .ok (n, rest)) :
    read (bs ++ more) = .ok (n, rest ++ more) := by
  obtain ⟨w, hn, rfl⟩ := read_eq_ok_iff.mp h
  rw [List.append_assoc, read_write hn]

theorem read_eq_badLead_iff {lead : UInt8} :
    read bs = .error (.badLead lead) ↔ bs.head? = some lead ∧ 0xE0 ≤ lead := by
  cases bs with
  | nil => simp [read]
  | cons b bs =>
    rw [read_cons, List.head?_cons, Option.some.injEq, ← width?_eq_none_iff]
    split
    · next hw =>
      simp only [Except.error.injEq, Fault.badLead.injEq]
      exact ⟨fun h => ⟨h, h ▸ hw⟩, fun h => h.1⟩
    · next w hw =>
      have : ¬ (b = lead ∧ width? lead = none) := by
        rintro ⟨rfl, h⟩
        rw [hw] at h; cases h
      split <;> simpa using this

theorem read_eq_endOfData_iff :
    read bs = .error .endOfData ↔
      bs = [] ∨ ∃ lead, ∃ w : Width, bs.head? = some lead ∧ w.Announced lead ∧
        bs.length < w.size := by
  cases bs with
  | nil => simp [read]
  | cons lead bs =>
    have hmissing :
      (∃ b, ∃ w : Width, (lead :: bs).head? = some b ∧ w.Announced b ∧ (lead :: bs).length < w.size) ↔
        ∃ w, width? lead = some w ∧ bs.length + 1 < w.size := by
      simp [← width?_eq_some_iff]
    rw [hmissing, read_cons]
    cases width? lead with
    | none => simp
    | some w => by_cases hs : bs.length + 1 < w.size <;> simp [hs]

end

/-! ## Integers in a row -/

def writeAll (vs : List (Width × Nat)) : List UInt8 := vs.flatMap fun v => write v.1 v.2

/-- Each value with the position behind it, when the first one stands at a position. -/
def marks : (position : Nat) → List (Width × Nat) → List (Nat × Nat)
  | _, [] => []
  | position, (w, n) :: vs => (n, position + w.size) :: marks (position + w.size) vs

def Fit (vs : List (Width × Nat)) : Prop := ∀ v ∈ vs, v.2 < v.1.bound

instance (vs : List (Width × Nat)) : Decidable (Fit vs) :=
  inferInstanceAs (Decidable (∀ v ∈ vs, v.2 < v.1.bound))

theorem writeAll_cons (w : Width) (n : Nat) (vs : List (Width × Nat)) :
    writeAll ((w, n) :: vs) = write w n ++ writeAll vs := List.flatMap_cons ..

theorem readMany_write {w : Width} {n : Nat} (h : n < w.bound) (k position : Nat)
    (rest : List UInt8) :
    readMany (k + 1) position (write w n ++ rest) =
      ((n, position + w.size) :: (readMany k (position + w.size) rest).1,
        (readMany k (position + w.size) rest).2) := by
  have hl : (write w n ++ rest).length - rest.length = w.size := by
    rw [List.length_append, length_write, Nat.add_sub_cancel]
  simp only [readMany, read_write h, hl]

/-- After the integers, reading goes on at the first byte behind them. -/
theorem readMany_writeAll {vs : List (Width × Nat)} (h : Fit vs) (k position : Nat)
    (rest : List UInt8) :
    readMany (vs.length + k) position (writeAll vs ++ rest) =
      (marks position vs ++ (readMany k (position + (writeAll vs).length) rest).1,
        (readMany k (position + (writeAll vs).length) rest).2) := by
  induction vs generalizing position with
  | nil => simp [writeAll, marks]
  | cons v vs ih =>
    obtain ⟨w, n⟩ := v
    obtain ⟨hn, hvs⟩ := List.forall_mem_cons.mp h
    have hp : position + (writeAll ((w, n) :: vs)).length =
        position + w.size + (writeAll vs).length := by
      rw [writeAll_cons, List.length_append, length_write, Nat.add_assoc]
    rw [hp, List.length_cons, Nat.succ_add, writeAll_cons, List.append_assoc, readMany_write hn,
      ih hvs, marks, List.cons_append]

/-- The reading ended with the integers that were asked for, or else before one that
cannot be read. -/
def Ends (k : Nat) (vs : List (Width × Nat)) (rest : List UInt8) : Option Fault → Prop
  | none => vs.length = k
  | some fault => vs.length < k ∧ read rest = .error fault

theorem exists_writeAll_of_readMany (k position : Nat) (bs : List UInt8) :
    ∃ vs rest, Fit vs ∧ bs = writeAll vs ++ rest ∧ (readMany k position bs).1 = marks position vs ∧
      Ends k vs rest (readMany k position bs).2 := by
  induction k generalizing position bs with
  | zero => exact ⟨[], bs, by simp [Fit], rfl, rfl, rfl⟩
  | succ k ih =>
    cases h : read bs with
    | error fault =>
      refine ⟨[], bs, by simp [Fit], rfl, ?_, ?_⟩
      · simp [readMany, h, marks]
      · simp [readMany, h, Ends]
    | ok r =>
      obtain ⟨n, behind⟩ := r
      obtain ⟨w, hn, rfl⟩ := read_eq_ok_iff.mp h
      obtain ⟨vs, rest, hvs, rfl, hmarks, hends⟩ := ih (position + w.size) behind
      rw [readMany_write hn]
      refine ⟨(w, n) :: vs, rest, List.forall_mem_cons.mpr ⟨hn, hvs⟩, ?_, ?_, ?_⟩
      · rw [writeAll_cons, List.append_assoc]
      · rw [hmarks, marks]
      · revert hends
        cases (readMany k (position + w.size) (writeAll vs ++ rest)).2 with
        | none => exact congrArg Nat.succ
        | some fault => exact fun h => ⟨Nat.succ_lt_succ h.1, h.2⟩

/-- Integers that are written one after the other, each at any width that holds it, are
read back one by one, and what is behind them is left. Whatever bytes are given, what is
read are integers that the bytes start with. An integer cannot be read if its first byte
announces no width, or if the bytes end before they are as many as it announces. -/
theorem self_delimiting :
    (∀ vs, Fit vs → ∀ k position rest, readMany (vs.length + k) position (writeAll vs ++ rest) =
      (marks position vs ++ (readMany k (position + (writeAll vs).length) rest).1,
        (readMany k (position + (writeAll vs).length) rest).2)) ∧
    (∀ k position bs, ∃ vs rest, Fit vs ∧ bs = writeAll vs ++ rest ∧ (readMany k position bs).1 = marks position vs ∧
      Ends k vs rest (readMany k position bs).2) ∧
    (∀ bs n rest, read bs = .ok (n, rest) ↔
      ∃ w : Width, n < w.bound ∧ bs = write w n ++ rest ∧ bs.length = w.size + rest.length) ∧
    (∀ bs lead, read bs = .error (.badLead lead) ↔ bs.head? = some lead ∧ 0xE0 ≤ lead) ∧
    ∀ bs, read bs = .error .endOfData ↔
      bs = [] ∨ ∃ lead, ∃ w : Width, bs.head? = some lead ∧ w.Announced lead ∧
        bs.length < w.size := by
  refine ⟨fun vs h => readMany_writeAll h, exists_writeAll_of_readMany, fun bs n rest => ?_,
    fun bs lead => read_eq_badLead_iff, fun bs => read_eq_endOfData_iff⟩
  rw [read_eq_ok_iff]
  constructor
  · rintro ⟨w, hn, rfl⟩
    exact ⟨w, hn, rfl, by rw [List.length_append, length_write]⟩
  · rintro ⟨w, hn, hbs, -⟩
    exact ⟨w, hn, hbs⟩

theorem self_delimiting_mixed :
    Fit [(.four, 0x7F), (.one, 0x7F), (.two, 0), (.four, 0x1FFFFFFF)] ∧
    readMany 5 0 [0xC0, 0, 0, 0x7F, 0x7F, 0x80, 0, 0xDF, 0xFF, 0xFF, 0xFF, 0xE0, 1] =
      ([(0x7F, 4), (0x7F, 5), (0, 7), (0x1FFFFFFF, 11)], some (.badLead 0xE0)) ∧
    ([0xBF] : List UInt8).head? = some 0xBF ∧ Width.two.Announced 0xBF ∧
      read [0xBF] = .error .endOfData := by
  obtain ⟨hmany, -, -, -, hend⟩ := self_delimiting
  have hfit : Fit [(.four, 0x7F), (.one, 0x7F), (.two, 0), (.four, 0x1FFFFFFF)] := by decide
  have htwo : Width.two.Announced 0xBF := by decide
  exact ⟨hfit, hmany _ hfit 1 0 [0xE0, 1], rfl, htwo,
    (hend _).mpr (.inr ⟨0xBF, .two, rfl, htwo, by decide⟩)⟩

end Compressed

end DebugMetadata
