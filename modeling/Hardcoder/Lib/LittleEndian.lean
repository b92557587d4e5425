import Mathlib.Data.List.Basic
import Mathlib.Tactic.Ring
import Mathlib.Tactic.NormNum

/-! Little-endian fields in a byte string. A packed record is the concatenation
of its fields; `field off w` reads the `w` bytes at offset `off` back. -/

namespace LittleEndian
set_option autoImplicit false

/-- The `w` low bytes of `n`, least significant first. -/
def bytes : Nat → Nat → List UInt8
  | 0, _ => []
  | w + 1, n => UInt8.ofNat n :: bytes w (n / 256)

def value : List UInt8 → Nat
  | [] => 0
  | b :: bs => b.toNat + 256 * value bs

@[simp] theorem length_bytes (w n : Nat) : (bytes w n).length = w := by
  induction w generalizing n with
  | zero => rfl
  | succ w ih => simp [bytes, ih]

theorem value_bytes (w n : Nat) : value (bytes w n) = n % 256 ^ w := by
  induction w generalizing n with
  | zero => simp [bytes, value, Nat.mod_one]
  | succ w ih =>
    have hb : (UInt8.ofNat n).toNat = n % 256 := by simp
    rw [bytes, value, ih, hb, pow_succ', Nat.mod_mul]

theorem value_lt (bs : List UInt8) : value bs < 256 ^ bs.length := by
  induction bs with
  | nil => simp [value]
  | cons b bs ih =>
    have hb : b.toNat < 256 := b.toNat_lt
    rw [value, List.length_cons, pow_succ]
    omega

theorem bytes_value (bs : List UInt8) : bytes bs.length (value bs) = bs := by
  induction bs with
  | nil => rfl
  | cons b bs ih =>
    have hb : b.toNat < 256 := b.toNat_lt
    have hhead : UInt8.ofNat (b.toNat + 256 * value bs) = b := by
      apply UInt8.toNat_inj.mp
      rw [UInt8.toNat_ofNat']
      omega
    have htail : (b.toNat + 256 * value bs) / 256 = value bs := by omega
    rw [List.length_cons, value, bytes, hhead, htail, ih]

/-- The encoding of a fixed-width word of `w` bytes. -/
def word (w : Nat) (x : BitVec (8 * w)) : List UInt8 := bytes w x.toNat

@[simp] theorem length_word (w : Nat) (x : BitVec (8 * w)) : (word w x).length = w :=
  length_bytes w _

/-- The word stored in the `w` bytes from offset `off` on. -/
def field (off w : Nat) (bs : List UInt8) : BitVec (8 * w) :=
  BitVec.ofNat (8 * w) (value ((bs.drop off).take w))

theorem field_word (w : Nat) (x : BitVec (8 * w)) (rest : List UInt8) :
    field 0 w (word w x ++ rest) = x := by
  have hpow : (256 : Nat) ^ w = 2 ^ (8 * w) := by rw [pow_mul]; norm_num
  apply BitVec.eq_of_toNat_eq
  simp only [field, List.drop_zero, List.take_left' (length_word w x), BitVec.toNat_ofNat]
  rw [word, value_bytes, hpow, Nat.mod_mod, Nat.mod_eq_of_lt x.isLt]

theorem word_field {off w : Nat} {bs : List UInt8} (h : off + w ≤ bs.length) :
    word w (field off w bs) = (bs.drop off).take w := by
  have hlen : ((bs.drop off).take w).length = w := by
    rw [List.length_take, List.length_drop]
    omega
  have hlt := value_lt ((bs.drop off).take w)
  have hpow : (256 : Nat) ^ w = 2 ^ (8 * w) := by rw [pow_mul]; norm_num
  rw [hlen, hpow] at hlt
  rw [word, field, BitVec.toNat_ofNat, Nat.mod_eq_of_lt hlt]
  generalize (bs.drop off).take w = xs at hlen ⊢
  rw [← hlen, bytes_value]

theorem field_skip (off w : Nat) (xs rest : List UInt8) (h : xs.length ≤ off) :
    field off w (xs ++ rest) = field (off - xs.length) w rest := by
  simp [field, List.drop_append, List.drop_eq_nil_of_le h]

theorem field_append (off w : Nat) (xs rest : List UInt8) (h : off + w ≤ xs.length) :
    field off w (xs ++ rest) = field off w xs := by
  have hd : off ≤ xs.length := by omega
  have ht : w ≤ (xs.drop off).length := by rw [List.length_drop]; omega
  simp only [field, List.drop_append_of_le_length hd, List.take_append_of_le_length ht]

end LittleEndian
