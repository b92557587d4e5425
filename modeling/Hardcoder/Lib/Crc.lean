import Mathlib.Logic.Function.Iterate

/-! Cyclic redundancy checks, lowest coefficient first: the remainder register is shifted
down, and the polynomial is added when a one leaves it. The polynomial is given without
its leading coefficient; its constant term is the highest bit. -/

namespace Crc
set_option autoImplicit false

variable {w : Nat} (poly : BitVec w)

/-- The register after one place. -/
def shift (c : BitVec w) : BitVec w := if c.getLsbD 0 = true then (c >>> 1) ^^^ poly else c >>> 1

/-- The register after the bits of a message. -/
def divide (c : BitVec w) (bits : List Bool) : BitVec w :=
  bits.foldl (fun c b => shift poly (c ^^^ (BitVec.ofBool b).setWidth w)) c

/-- A register that holds the bits, the first lowest. -/
def ofBits (w : Nat) : List Bool → BitVec w
  | [] => 0#w
  | b :: bits => (ofBits w bits <<< 1) ^^^ (BitVec.ofBool b).setWidth w

/-- The bits of a byte as they are fed, the lowest first. -/
def bitsOf (b : BitVec 8) : List Bool := (List.range 8).map b.getLsbD

/-- An entry of the table: the register after the eight places of a byte. -/
def entry (i : BitVec w) : BitVec w := (shift poly)^[8] i

/-- The register after a byte, by the table. -/
def tableStep (c : BitVec w) (b : BitVec 8) : BitVec w :=
  (c >>> 8) ^^^ entry poly ((c &&& 0xFF#w) ^^^ b.setWidth w)

variable {poly} {c d : BitVec w}

/-! ### Shifting is linear and loses nothing -/

theorem shift_of_even (h : c.getLsbD 0 = false) : shift poly c = c >>> 1 := by
  rw [shift, h, if_neg Bool.false_ne_true]

theorem shift_xor (c d : BitVec w) : shift poly (c ^^^ d) = shift poly c ^^^ shift poly d := by
  have hcomm : c >>> 1 ^^^ d >>> 1 ^^^ poly = c >>> 1 ^^^ (d >>> 1 ^^^ poly) := BitVec.xor_assoc _ _ _
  have hswap : c >>> 1 ^^^ d >>> 1 ^^^ poly = c >>> 1 ^^^ poly ^^^ d >>> 1 := by ac_rfl
  have hcancel : c >>> 1 ^^^ d >>> 1 = c >>> 1 ^^^ poly ^^^ (d >>> 1 ^^^ poly) := by
    rw [BitVec.xor_assoc, BitVec.xor_comm (d >>> 1) poly, ← BitVec.xor_assoc poly, BitVec.xor_self,
      BitVec.zero_xor]
  unfold shift
  rw [BitVec.getLsbD_xor, BitVec.ushiftRight_xor_distrib]
  cases c.getLsbD 0 <;> cases d.getLsbD 0
  · rfl
  · exact hcomm
  · exact hswap
  · exact hcancel

/-- The leading one that a division adds stays at the top. -/
theorem eq_zero_of_shift (hpoly : poly.msb = true) (h : shift poly c = 0#w) : c = 0#w := by
  unfold shift at h
  split at h
  · have hmsb : ((c >>> 1) ^^^ poly).msb = true := by
      rw [BitVec.msb_xor, BitVec.msb_ushiftRight, hpoly]
      rfl
    rw [h] at hmsb
    simp at hmsb
  · rename_i heven
    apply BitVec.eq_of_getLsbD_eq
    intro i _
    cases i with
    | zero => simpa using heven
    | succ i =>
      have hbit := congrArg (fun x => x.getLsbD i) h
      simpa [Nat.add_comm] using hbit

theorem shift_injective (hpoly : poly.msb = true) : Function.Injective (shift poly) := by
  intro c d h
  have hzero : shift poly (c ^^^ d) = 0#w := by rw [shift_xor, h, BitVec.xor_self]
  exact BitVec.xor_eq_zero_iff.mp (eq_zero_of_shift hpoly hzero)

theorem iterate_shift_xor (n : Nat) (c d : BitVec w) :
    (shift poly)^[n] (c ^^^ d) = (shift poly)^[n] c ^^^ (shift poly)^[n] d := by
  induction n generalizing c d with
  | zero => rfl
  | succ n ih => rw [Function.iterate_succ_apply, Function.iterate_succ_apply,
      Function.iterate_succ_apply, shift_xor, ih]

theorem iterate_shift_of_low {n : Nat} (h : ∀ i < n, c.getLsbD i = false) :
    (shift poly)^[n] c = c >>> n := by
  induction n with
  | zero => rw [Function.iterate_zero_apply, BitVec.ushiftRight_zero]
  | succ n ih =>
    have hlow : (c >>> n).getLsbD 0 = false := by
      rw [BitVec.getLsbD_ushiftRight]
      exact h n (Nat.lt_succ_self n)
    rw [Function.iterate_succ_apply', ih fun i hi => h i (Nat.lt_succ_of_lt hi), shift_of_even hlow,
      BitVec.shiftRight_add]

/-! ### Up to a register's length of bits can be added at once -/

theorem getLsbD_bit (b : Bool) (i : Nat) :
    ((BitVec.ofBool b).setWidth w).getLsbD i = (decide (i < w) && (decide (i = 0) && b)) := by
  rw [BitVec.getLsbD_setWidth, BitVec.getLsbD_ofBool]

theorem getLsbD_ofBits (bits : List Bool) (i : Nat) :
    (ofBits w bits).getLsbD i = (decide (i < w) && bits.getD i false) := by
  induction bits generalizing i with
  | nil => simp [ofBits]
  | cons b bits ih =>
    rw [ofBits, BitVec.getLsbD_xor, BitVec.getLsbD_shiftLeft, getLsbD_bit]
    cases i with
    | zero => simp
    | succ i =>
      rw [Nat.add_sub_cancel, ih]
      by_cases hi : i + 1 < w
      · have hi' : i < w := Nat.lt_of_succ_lt hi
        simp [hi, hi']
      · simp [hi]

theorem shift_ofBits {bits : List Bool} (h : bits.length < w) :
    shift poly (ofBits w bits <<< 1) = ofBits w bits := by
  have heven : (ofBits w bits <<< 1).getLsbD 0 = false := by simp
  rw [shift_of_even heven]
  apply BitVec.eq_of_getLsbD_eq
  intro i hi
  rw [BitVec.getLsbD_ushiftRight, BitVec.getLsbD_shiftLeft, Nat.add_comm, Nat.add_sub_cancel]
  by_cases hlast : i + 1 < w
  · simp [hlast]
  · have hbeyond : bits.length ≤ i := by omega
    simp [hlast, getLsbD_ofBits, List.getElem?_eq_none hbeyond]

@[simp] theorem divide_nil : divide poly c [] = c := rfl

theorem divide_cons (b : Bool) (bits : List Bool) :
    divide poly c (b :: bits) = divide poly (shift poly (c ^^^ (BitVec.ofBool b).setWidth w)) bits := rfl

theorem divide_append (bits bits' : List Bool) :
    divide poly c (bits ++ bits') = divide poly (divide poly c bits) bits' := List.foldl_append

theorem divide_eq_iterate {bits : List Bool} (h : bits.length ≤ w) :
    divide poly c bits = (shift poly)^[bits.length] (c ^^^ ofBits w bits) := by
  induction bits generalizing c with
  | nil => rw [divide_nil, ofBits, BitVec.xor_zero, List.length_nil, Function.iterate_zero_apply]
  | cons b bits ih =>
    have hlt : bits.length < w := h
    have hsplit : c ^^^ ofBits w (b :: bits) =
        c ^^^ (BitVec.ofBool b).setWidth w ^^^ ofBits w bits <<< 1 := by
      rw [ofBits]
      ac_rfl
    rw [divide_cons, ih (Nat.le_of_lt hlt), List.length_cons, Function.iterate_succ_apply, hsplit,
      shift_xor _ (ofBits w bits <<< 1), shift_ofBits hlt]

theorem ofBits_inj {bits bits' : List Bool} (hlen : bits.length = bits'.length) (hw : bits.length ≤ w)
    (h : ofBits w bits = ofBits w bits') : bits = bits' := by
  apply List.ext_getElem hlen
  intro i hi hi'
  have hbit : (ofBits w bits).getLsbD i = (ofBits w bits').getLsbD i := by rw [h]
  have hiw : i < w := Nat.lt_of_lt_of_le hi hw
  rw [getLsbD_ofBits, getLsbD_ofBits] at hbit
  simpa [hiw, hi, hi'] using hbit

/-! ### Errors that are found -/

theorem divide_injective (hpoly : poly.msb = true) (bits : List Bool) :
    Function.Injective fun c => divide poly c bits := by
  induction bits with
  | nil => exact fun _ _ h => h
  | cons b bits ih =>
    intro c d h
    have hshift := shift_injective hpoly (ih h)
    exact BitVec.xor_left_inj _ |>.mp hshift

/-- A burst of errors no longer than the register changes the remainder, whatever comes before
and behind it. -/
theorem divide_ne_of_burst (hpoly : poly.msb = true) {before bits bits' : List Bool}
    (behind : List Bool) (hlen : bits.length = bits'.length) (hw : bits.length ≤ w)
    (hne : bits ≠ bits') :
    divide poly c (before ++ (bits ++ behind)) ≠ divide poly c (before ++ (bits' ++ behind)) := by
  intro h
  rw [divide_append, divide_append, divide_append, divide_append] at h
  have hburst : divide poly (divide poly c before) bits = divide poly (divide poly c before) bits' :=
    divide_injective hpoly behind h
  generalize divide poly c before = d at hburst
  have hw' : bits'.length ≤ w := hlen ▸ hw
  rw [divide_eq_iterate hw, divide_eq_iterate hw', hlen] at hburst
  have hbits := (shift_injective hpoly).iterate _ hburst
  exact hne (ofBits_inj hlen hw ((BitVec.xor_right_inj _).mp hbits))

/-- Two messages that differ, in no bits further apart than the register is long, have
different remainders. -/
theorem divide_ne_of_window (hpoly : poly.msb = true) {bits bits' : List Bool} {first : Nat}
    (hlen : bits.length = bits'.length) (hne : bits ≠ bits')
    (hwindow : ∀ i, bits[i]? ≠ bits'[i]? → first ≤ i ∧ i < first + w) :
    divide poly c bits ≠ divide poly c bits' := by
  have hsplit (l : List Bool) :
      l.take first ++ ((l.drop first).take w ++ (l.drop first).drop w) = l := by
    rw [List.take_append_drop, List.take_append_drop]
  have hbefore : bits.take first = bits'.take first := by
    apply List.ext_getElem?
    intro i
    rw [List.getElem?_take, List.getElem?_take]
    split
    · by_contra hdiff
      have hin := hwindow i hdiff
      omega
    · rfl
  have hbehind : (bits.drop first).drop w = (bits'.drop first).drop w := by
    rw [List.drop_drop, List.drop_drop]
    apply List.ext_getElem?
    intro i
    rw [List.getElem?_drop, List.getElem?_drop]
    by_contra hdiff
    have hin := hwindow _ hdiff
    omega
  have hburst : (bits.drop first).take w ≠ (bits'.drop first).take w := by
    intro heq
    apply hne
    rw [← hsplit bits, ← hsplit bits', hbefore, heq, hbehind]
  have hlength : ((bits.drop first).take w).length = ((bits'.drop first).take w).length := by
    rw [List.length_take, List.length_take, List.length_drop, List.length_drop, hlen]
  have hshort : ((bits.drop first).take w).length ≤ w := by
    rw [List.length_take]
    exact Nat.min_le_left _ _
  rw [← hsplit bits, ← hsplit bits', hbefore, hbehind]
  exact divide_ne_of_burst hpoly _ hlength hshort hburst

/-! ### Byte by byte with a table -/

@[simp] theorem length_bitsOf (b : BitVec 8) : (bitsOf b).length = 8 := by simp [bitsOf]

theorem ofBits_bitsOf (b : BitVec 8) : ofBits w (bitsOf b) = b.setWidth w := by
  apply BitVec.eq_of_getLsbD_eq
  intro i hi
  rw [getLsbD_ofBits, BitVec.getLsbD_setWidth, bitsOf]
  by_cases h8 : i < 8
  · simp [h8]
  · have hbeyond : b.getLsbD i = false := BitVec.getLsbD_of_ge b i (Nat.not_lt.mp h8)
    simp [h8, hbeyond]

theorem getLsbD_mask (i : Nat) : (0xFF#w).getLsbD i = (decide (i < w) && decide (i < 8)) := by
  have h255 : (0xFF : Nat) = 2 ^ 8 - 1 := rfl
  rw [BitVec.getLsbD_ofNat, h255, Nat.testBit_two_pow_sub_one]

/-- What the eight places of a byte do not only move is decided by the lowest eight bits. -/
theorem iterate_shift_eight (hw : 8 ≤ w) (c : BitVec w) :
    (shift poly)^[8] c = c >>> 8 ^^^ (shift poly)^[8] (c &&& 0xFF#w) := by
  have hhigh : ∀ i < 8, (c ^^^ (c &&& 0xFF#w)).getLsbD i = false := by
    intro i hi
    have hiw : i < w := Nat.lt_of_lt_of_le hi hw
    rw [BitVec.getLsbD_xor, BitVec.getLsbD_and, getLsbD_mask, decide_eq_true hi, decide_eq_true hiw]
    simp
  have hmoved : (c ^^^ (c &&& 0xFF#w)) >>> 8 = c >>> 8 := by
    apply BitVec.eq_of_getLsbD_eq
    intro i _
    have hbeyond : ¬ 8 + i < 8 := Nat.not_lt.mpr (Nat.le_add_right 8 i)
    rw [BitVec.getLsbD_ushiftRight, BitVec.getLsbD_ushiftRight, BitVec.getLsbD_xor,
      BitVec.getLsbD_and, getLsbD_mask, decide_eq_false hbeyond, Bool.and_false, Bool.and_false,
      Bool.xor_false]
  have hsplit : c = (c ^^^ (c &&& 0xFF#w)) ^^^ (c &&& 0xFF#w) := by
    rw [BitVec.xor_assoc, BitVec.xor_self, BitVec.xor_zero]
  calc (shift poly)^[8] c
      = (shift poly)^[8] (c ^^^ (c &&& 0xFF#w)) ^^^ (shift poly)^[8] (c &&& 0xFF#w) := by
        rw [← iterate_shift_xor, ← hsplit]
    _ = c >>> 8 ^^^ (shift poly)^[8] (c &&& 0xFF#w) := by
        rw [iterate_shift_of_low hhigh, hmoved]

theorem tableStep_eq_divide (hw : 8 ≤ w) (c : BitVec w) (b : BitVec 8) :
    tableStep poly c b = divide poly c (bitsOf b) := by
  have hhigh : b.setWidth w >>> 8 = 0#w := by
    apply BitVec.eq_of_getLsbD_eq
    intro i _
    rw [BitVec.getLsbD_ushiftRight, BitVec.getLsbD_setWidth, BitVec.getLsbD_of_ge b _ (Nat.le_add_right 8 i),
      Bool.and_false, BitVec.getLsbD_zero]
  have hlow : (c ^^^ b.setWidth w) &&& 0xFF#w = (c &&& 0xFF#w) ^^^ b.setWidth w := by
    apply BitVec.eq_of_getLsbD_eq
    intro i hi
    rw [BitVec.getLsbD_and, BitVec.getLsbD_xor, BitVec.getLsbD_xor, BitVec.getLsbD_and, getLsbD_mask,
      BitVec.getLsbD_setWidth, decide_eq_true hi]
    by_cases h8 : i < 8
    · simp [h8]
    · simp [h8, BitVec.getLsbD_of_ge b i (Nat.not_lt.mp h8)]
  have hlen : (bitsOf b).length ≤ w := by rwa [length_bitsOf]
  rw [divide_eq_iterate hlen, length_bitsOf, ofBits_bitsOf,
    iterate_shift_eight hw, BitVec.ushiftRight_xor_distrib, hhigh, BitVec.xor_zero, hlow]
  rfl

/-- A checksum by the table is the remainder of the bits of all the bytes. -/
theorem foldl_tableStep (hw : 8 ≤ w) (c : BitVec w) (bytes : List (BitVec 8)) :
    bytes.foldl (tableStep poly) c = divide poly c (bytes.flatMap bitsOf) := by
  induction bytes generalizing c with
  | nil => rfl
  | cons b bytes ih =>
    rw [List.foldl_cons, List.flatMap_cons, divide_append, ih, tableStep_eq_divide hw]

end Crc
