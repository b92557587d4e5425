import Hardcoder.CJson
import Hardcoder.Lib.Strtod

/-! Numbers in the texts of cJSON.c: `parse_number`, `print_number`. -/

namespace Hardcoder.cJSON
open Rounding Strtol Strtod
set_option autoImplicit false

/-- The values of a `double` but for those that are no number. -/
inductive Binary64 where
  | zero (negative : Bool)
  | finite (d : Double) (nonzero : d.value ≠ 0) (small : |d.value| < 2 ^ 1024)
  | infinite (negative : Bool)

def Double.signed (negative : Bool) (d : Double) : Double :=
  if negative then ⟨-d.value, d.isFloat.neg⟩ else d

namespace Binary64

/-- The value, without the sign of zero. -/
def number : Binary64 → Number
  | zero _ => .finite (.nearest 0)
  | finite d _ _ => .finite d
  | infinite negative => .infinite negative

def isFinite : Binary64 → Bool
  | infinite _ => false
  | _ => true

/-- What a double comes to: zero with the sign, infinity from `2 ^ 1024` on. -/
def ofDouble (negative : Bool) (d : Double) : Binary64 :=
  if h : d.value = 0 then zero negative
  else if hsmall : |d.value| < 2 ^ 1024 then finite d h hsmall
  else infinite negative

/-- The result of `strtod` for a sign and a magnitude. -/
def rounded (negative : Bool) (q : ℚ) : Binary64 := ofDouble negative ((Double.nearest q).signed negative)

/-- `==` of two doubles -/
def same : Binary64 → Binary64 → Bool
  | zero _, zero _ => true
  | finite d _ _, finite d' _ _ => d.value = d'.value
  | infinite negative, infinite negative' => negative = negative'
  | _, _ => false

/-- `%1.*g` -/
def printf (p : ℕ) : Binary64 → List UInt8
  | zero negative => signed negative [48]
  | finite d _ _ => signed (d.value < 0) (general p |d.value|)
  | infinite negative => signed negative (ascii "inf")

/-- `sscanf` with `%lg` -/
def sscanf (text : List UInt8) : Option Binary64 := (strtod text).map fun r => rounded r.1 r.2.1

end Binary64

/-- What `print_number` puts into `number_buffer`. -/
def number_buffer (d : Binary64) : List UInt8 :=
  if d.isFinite then
    if (Binary64.sscanf (d.printf 15)).any (·.same d) then d.printf 15 else d.printf 17
  else ascii "null"

/-- The texts of JSON numbers that `number_c_string` can hold, and what they are read as. -/
structure IsNumberText (d : Binary64) (text : List UInt8) : Prop where
  numeral : ∃ (negative : Bool) (n : Numeral),
    text = signed negative n.text ∧ n.Plain ∧ Binary64.rounded negative n.value = d
  short : text.length ≤ 63

/-- The bytes that are copied into `number_c_string`. -/
def number_c_string (text : List UInt8) : List UInt8 := (text.takeWhile isNumberByte).take 63

/-- `parse_number` on the text from the offset on: the number, and how far `strtod` got. -/
def parse_number (text : List UInt8) : Option (Binary64 × ℕ) :=
  (strtod (number_c_string text)).map fun r =>
    (Binary64.rounded r.1 r.2.1, (number_c_string text).length - r.2.2.length)

section Read
variable {d : Binary64} {text rest : List UInt8}

theorem parse_number_text (h : IsNumberText d text) (hrest : Ends rest) :
    parse_number (text ++ rest) = some (d, text.length) := by
  obtain ⟨⟨negative, n, rfl, -, hd⟩, hshort⟩ := h
  have hnone : rest.takeWhile isNumberByte = [] := by
    cases rest with
    | nil => rfl
    | cons c rest => exact List.takeWhile_cons_of_neg (by simp [hrest c rfl])
  have hcopy : number_c_string (signed negative n.text ++ rest) = signed negative n.text := by
    rw [number_c_string, List.takeWhile_append_of_pos (isNumberByte_text negative n), hnone,
      List.append_nil, List.take_of_length_le hshort]
  have hread : strtod (signed negative n.text ++ []) = some (negative, n.value, []) :=
    strtod_text negative n fun c hc => nomatch hc
  rw [List.append_nil] at hread
  rw [parse_number, hcopy, hread, Option.map_some, hd]
  rfl

theorem length_signed_le (negative : Bool) (text : List UInt8) :
    (signed negative text).length ≤ text.length + 1 := by
  cases negative
  · exact Nat.le_succ _
  · exact le_rfl

end Read

section Print
variable {d : Double} (hnonzero : d.value ≠ 0) (hsmall : |d.value| < 2 ^ 1024)

theorem signed_value (negative : Bool) (q : ℚ) :
    ((Double.nearest q).signed negative).value =
      if negative then -toFloat 53 (-1074) q else toFloat 53 (-1074) q := by
  cases negative <;> rfl

include hnonzero in
/-- The sign and the rounded magnitude of a double give the double back. -/
theorem rounded_eq {q : ℚ} (h : toFloat 53 (-1074) q = |d.value|) :
    Binary64.rounded (d.value < 0) q = .finite d hnonzero hsmall := by
  have hd : (Double.nearest q).signed (d.value < 0) = d := by
    apply Double.ext
    rw [signed_value, h]
    by_cases hneg : d.value < 0
    · simp [hneg, abs_of_neg hneg]
    · simp [hneg, abs_of_nonneg (not_lt.mp hneg)]
  rw [Binary64.rounded, hd, Binary64.ofDouble, dif_neg hnonzero, dif_pos hsmall]

theorem inv_pow_le {a b m n : ℕ} (hb : 0 < b) (h : b ^ n ≤ a ^ m) :
    (a : ℚ) ^ (-(m : ℤ)) ≤ (b : ℚ) ^ (-(n : ℤ)) := by
  rw [zpow_neg, zpow_neg, zpow_natCast, zpow_natCast]
  exact inv_anti₀ (by positivity) (by exact_mod_cast h)

theorem pow_lt {a b m n : ℕ} (h : b ^ n < a ^ m) : (b : ℚ) ^ n < (a : ℚ) ^ (m : ℤ) := by
  rw [zpow_natCast]
  exact_mod_cast h

include hnonzero hsmall in
/-- The decimal exponent of a double has three digits. -/
theorem log_bounds : -324 ≤ Int.log 10 |d.value| ∧ Int.log 10 |d.value| < 309 := by
  have hpos := abs_pos.mpr hnonzero
  constructor
  · have hlow : ((10 : ℕ) : ℚ) ^ (-(324 : ℕ) : ℤ) ≤ |d.value| :=
      le_trans (inv_pow_le (by decide) (by decide +kernel)) (d.isFloat.two_zpow_le hnonzero)
    have hlog := Int.log_mono_right (b := 10) (zpow_pos (by norm_num) _) hlow
    rwa [Int.log_zpow (by norm_num)] at hlog
  · have hhigh : |d.value| < ((10 : ℕ) : ℚ) ^ ((309 : ℕ) : ℤ) :=
      hsmall.trans (pow_lt (by decide +kernel))
    exact (Int.lt_zpow_iff_log_lt (by norm_num) hpos).mp hhigh

/-- The sign, the digits, the point and the exponent fit into the temporary buffer. -/
theorem length_printf_le {p : ℕ} (hp : 0 < p) :
    (Binary64.printf p (.finite d hnonzero hsmall)).length ≤ p + 7 := by
  have hlog := log_bounds hnonzero hsmall
  have hexponent : (significand p |d.value|).2.natAbs < 1000 := by
    unfold significand
    dsimp only
    rw [abs_abs]
    split
    · dsimp only
      omega
    · dsimp only
      omega
  have hgeneral := length_general_le hp (abs_pos.mpr hnonzero) hexponent
  have hsigned := length_signed_le (decide (d.value < 0)) (general p |d.value|)
  rw [Binary64.printf]
  omega

/-- What `sscanf` makes of the printed digits. -/
theorem sscanf_printf {p : ℕ} (hp : 0 < p) :
    Binary64.sscanf (Binary64.printf p (.finite d hnonzero hsmall)) =
      some (Binary64.rounded (d.value < 0) (digits 10 p |d.value|)) := by
  obtain ⟨n, htext, hvalue, -⟩ := exists_writes hp (abs_pos.mpr hnonzero)
  have hread : strtod (signed (d.value < 0) n.text ++ []) = some (decide (d.value < 0), n.value, []) :=
    strtod_text _ n fun c hc => nomatch hc
  rw [List.append_nil, htext, hvalue] at hread
  rw [Binary64.sscanf, Binary64.printf, hread]
  rfl

/-- The printed digits are a JSON number, with this value if it is recovered. -/
theorem isNumberText_printf {p : ℕ} (hp : 0 < p) (hp17 : p ≤ 17)
    (h : Binary64.rounded (d.value < 0) (digits 10 p |d.value|) = .finite d hnonzero hsmall) :
    IsNumberText (.finite d hnonzero hsmall) (Binary64.printf p (.finite d hnonzero hsmall)) := by
  obtain ⟨n, htext, hvalue, hplain⟩ := exists_writes hp (abs_pos.mpr hnonzero)
  have hlength := length_printf_le hnonzero hsmall hp
  refine ⟨⟨_, n, by rw [Binary64.printf, htext], hplain, by rwa [hvalue]⟩, by omega⟩

end Print

theorem number_buffer_zero (negative : Bool) : number_buffer (.zero negative) = signed negative [48] :=
  ite_self _

/-- `snprintf` has room for 24 bytes and a zero. -/
theorem length_number_buffer_le (x : Binary64) : (number_buffer x).length ≤ 24 := by
  cases x with
  | zero negative =>
    rw [number_buffer_zero]
    exact Nat.le_trans (length_signed_le negative [48]) (by decide)
  | infinite negative => exact (by decide : (ascii "null").length ≤ 24)
  | finite d hnonzero hsmall =>
    have h15 := length_printf_le hnonzero hsmall (p := 15) (by decide)
    have h17 := length_printf_le hnonzero hsmall (p := 17) (by decide)
    have hfinite : (Binary64.finite d hnonzero hsmall).isFinite = true := rfl
    rw [number_buffer, if_pos hfinite]
    split <;> omega

theorem eq_of_same {d : Double} {hnonzero : d.value ≠ 0} {hsmall : |d.value| < 2 ^ 1024} {x : Binary64}
    (h : x.same (.finite d hnonzero hsmall) = true) : x = .finite d hnonzero hsmall := by
  cases x with
  | zero _ => cases h
  | infinite _ => cases h
  | finite d' hnonzero' hsmall' =>
    obtain rfl := Double.ext (of_decide_eq_true h)
    rfl

theorem isNumberText_zero (negative : Bool) : IsNumberText (.zero negative) (signed negative [48]) := by
  let n : Numeral := ⟨[48], [], none, ⟨List.cons_ne_nil _ _, List.forall_mem_singleton.mpr rfl⟩,
    List.forall_mem_nil _⟩
  have hvalue : n.value = 0 := by
    have hdigits : Strtol.value (n.whole ++ n.fraction) = 0 := rfl
    rw [Numeral.value, hdigits, Nat.cast_zero, zero_mul]
  have hzero : ((Double.nearest n.value).signed negative).value = 0 := by
    rw [signed_value, hvalue, toFloat_zero, neg_zero, ite_self]
  refine ⟨⟨negative, n, rfl, .inl rfl, ?_⟩, ?_⟩
  · rw [Binary64.rounded, Binary64.ofDouble, dif_pos hzero]
  · cases negative <;> decide

/-- What is printed for a number that is not infinite is read back, its sign of zero included. -/
theorem isNumberText_buffer {x : Binary64} (h : x.isFinite = true) : IsNumberText x (number_buffer x) := by
  cases x with
  | zero negative =>
    rw [number_buffer_zero]
    exact isNumberText_zero negative
  | infinite _ => cases h
  | finite d hnonzero hsmall =>
    rw [number_buffer, if_pos h, sscanf_printf hnonzero hsmall (by decide)]
    split
    · rename_i hsame
      exact isNumberText_printf hnonzero hsmall (by decide) (by decide) (eq_of_same hsame)
    · refine isNumberText_printf hnonzero hsmall (by decide) le_rfl ?_
      exact rounded_eq hnonzero hsmall
        (toFloat_digits (by norm_num) (by norm_num) (by norm_num) d.isFloat.abs)

end Hardcoder.cJSON
