/-!
# Little-endian numbers

A list of bytes and the number it writes, least significant byte first. `bytes`
writes a number at a fixed width, `value` reads one back, `signed` reads the
same bytes as a two's complement number.
-/

namespace DebugMetadata

namespace LittleEndian

def value : List UInt8 → Nat
  | [] => 0
  | b :: bs => b.toNat + 256 * value bs

def bytes : (width n : Nat) → List UInt8
  | 0, _ => []
  | w + 1, n => UInt8.ofNat (n % 256) :: bytes w (n / 256)

/-- The first number that does not fit a width. -/
def bound : (width : Nat) → Nat
  | 0 => 1
  | w + 1 => 256 * bound w

def signed (bs : List UInt8) : Int :=
  Int.bmod (value bs) (bound bs.length)

def signedBytes (width : Nat) (n : Int) : List UInt8 :=
  bytes width (n % bound width).toNat

@[simp] theorem value_nil : value [] = 0 := rfl

@[simp] theorem value_cons (b : UInt8) (bs : List UInt8) :
    value (b :: bs) = b.toNat + 256 * value bs := rfl

@[simp] theorem length_bytes (w n : Nat) : (bytes w n).length = w := by
  induction w generalizing n with
  | zero => rfl
  | succ w ih => simp [bytes, ih]

theorem bound_pos (w : Nat) : 0 < bound w := by
  induction w with
  | zero => exact Nat.one_pos
  | succ w ih => rw [bound]; omega

theorem value_lt (bs : List UInt8) : value bs < bound bs.length := by
  induction bs with
  | nil => exact Nat.one_pos
  | cons b bs ih =>
    have := b.toNat_lt
    simp only [value_cons, List.length_cons, bound]
    omega

theorem value_bytes {w n : Nat} (h : n < bound w) : value (bytes w n) = n := by
  induction w generalizing n with
  | zero =>
    have : n = 0 := Nat.lt_one_iff.mp h
    rw [this]; rfl
  | succ w ih =>
    have hd : n / 256 < bound w := Nat.div_lt_of_lt_mul h
    have hm : (UInt8.ofNat (n % 256)).toNat = n % 256 := by
      rw [UInt8.toNat_ofNat']
      exact Nat.mod_eq_of_lt (Nat.mod_lt n (by decide))
    rw [bytes, value_cons, ih hd, hm]
    omega

theorem bytes_value (bs : List UInt8) : bytes bs.length (value bs) = bs := by
  induction bs with
  | nil => rfl
  | cons b bs ih =>
    have hb := b.toNat_lt
    have h₁ : (b.toNat + 256 * value bs) % 256 = b.toNat := by omega
    have h₂ : (b.toNat + 256 * value bs) / 256 = value bs := by omega
    simp [bytes, h₁, h₂, ih]

theorem signedBytes_signed (bs : List UInt8) : signedBytes bs.length (signed bs) = bs := by
  have hv := value_lt bs
  have hp := bound_pos bs.length
  have he : signed bs % bound bs.length = value bs := by
    rw [signed, Int.bmod_emod]
    exact Int.emod_eq_of_lt (by omega) (by omega)
  rw [signedBytes, he, Int.toNat_natCast, bytes_value]

@[simp] theorem length_signedBytes (w : Nat) (n : Int) : (signedBytes w n).length = w :=
  length_bytes w _

theorem signed_signedBytes {w : Nat} {n : Int} (hl : -(bound w / 2 : Int) ≤ n)
    (hu : n < (bound w + 1) / 2) : signed (signedBytes w n) = n := by
  have hp := bound_pos w
  have h0 : 0 ≤ n % bound w := Int.emod_nonneg n (by omega)
  have hlt : n % bound w < bound w := Int.emod_lt_of_pos n (by omega)
  rw [signed, length_signedBytes, signedBytes, value_bytes (by omega), Int.toNat_of_nonneg h0,
    Int.emod_bmod]
  exact Int.bmod_eq_of_le hl hu

end LittleEndian

end DebugMetadata
