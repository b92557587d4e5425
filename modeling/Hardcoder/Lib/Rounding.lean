import Mathlib.Algebra.Order.Round
import Mathlib.Data.Int.Log
import Mathlib.Data.Rat.Floor
import Mathlib.Tactic.FieldSimp
import Mathlib.Tactic.GCongr
import Mathlib.Tactic.Linarith
import Mathlib.Tactic.Positivity
import Mathlib.Tactic.Ring

/-! Rounding of rationals to the nearest number of a binary format, and to the nearest
decimal (or number of any base) of so many digits; ties go to the even neighbour. Enough
digits identify a number of the format. -/

namespace Rounding
set_option autoImplicit false

/-- The nearest integer; of two the even one. -/
def roundEven (q : ℚ) : ℤ :=
  if q - ⌊q⌋ < 1 / 2 then ⌊q⌋
  else if 1 / 2 < q - ⌊q⌋ then ⌊q⌋ + 1
  else if ⌊q⌋ % 2 = 0 then ⌊q⌋
  else ⌊q⌋ + 1

/-- The nearest multiple of the unit. -/
def roundTo (unit q : ℚ) : ℚ := roundEven (q / unit) * unit

/-- The place of the last of `n` digits of the number. -/
def place (b n : ℕ) (q : ℚ) : ℚ := (b : ℚ) ^ (Int.log b |q| + 1 - n)

/-- The nearest number of `n` digits. -/
def digits (b n : ℕ) (q : ℚ) : ℚ := roundTo (place b n q) q

/-- A number of the binary format with `p` digits and the smallest exponent `emin`. -/
def IsFloat (p : ℕ) (emin : ℤ) (q : ℚ) : Prop :=
  ∃ m k : ℤ, |m| ≤ 2 ^ p ∧ emin ≤ k ∧ q = m * 2 ^ k

/-- The exponent of the last digit of the number in the format. -/
def lastExponent (p : ℕ) (emin : ℤ) (q : ℚ) : ℤ := max (Int.log 2 |q| + 1 - p) emin

/-- The nearest number of the format. -/
def toFloat (p : ℕ) (emin : ℤ) (q : ℚ) : ℚ := roundTo (2 ^ lastExponent p emin q) q

theorem abs_roundEven_sub_le (q : ℚ) : |(roundEven q : ℚ) - q| ≤ 1 / 2 := by
  have hle := Int.floor_le q
  have hlt := Int.lt_floor_add_one q
  rw [abs_le]
  unfold roundEven
  split
  · constructor <;> linarith
  split
  · push_cast
    constructor <;> linarith
  split
  · constructor <;> linarith
  · push_cast
    constructor <;> linarith

/-- No integer is nearer. -/
theorem roundEven_nearest (q : ℚ) (n : ℤ) : |(roundEven q : ℚ) - q| ≤ |(n : ℚ) - q| := by
  by_cases hn : n = roundEven q
  · rw [hn]
  have hhalf := abs_roundEven_sub_le q
  have hone : (1 : ℚ) ≤ |(n : ℚ) - roundEven q| := by
    have hint : 1 ≤ |n - roundEven q| := Int.one_le_abs (sub_ne_zero.mpr hn)
    exact_mod_cast hint
  have htriangle : |(n : ℚ) - roundEven q| ≤ |(n : ℚ) - q| + |(roundEven q : ℚ) - q| := by
    rw [abs_sub_comm (roundEven q : ℚ)]
    exact abs_sub_le _ _ _
  linarith

theorem roundEven_intCast (n : ℤ) : roundEven n = n := by
  have hnearest := roundEven_nearest n n
  rw [sub_self, abs_zero, abs_nonpos_iff, sub_eq_zero] at hnearest
  exact_mod_cast hnearest

section RoundTo
variable {unit q : ℚ}

theorem roundTo_nearest (hunit : 0 < unit) (n : ℤ) : |roundTo unit q - q| ≤ |n * unit - q| := by
  have hscale (x : ℚ) : |x * unit - q| = |x - q / unit| * unit := by
    have hdiv : x * unit - q = (x - q / unit) * unit := by field_simp
    rw [hdiv, abs_mul, abs_of_pos hunit]
  rw [roundTo, hscale, hscale]
  exact mul_le_mul_of_nonneg_right (roundEven_nearest _ _) hunit.le

theorem abs_roundTo_sub_le (hunit : 0 < unit) : |roundTo unit q - q| ≤ unit / 2 := by
  have hdiv : roundTo unit q - q = ((roundEven (q / unit) : ℚ) - q / unit) * unit := by
    rw [roundTo]
    field_simp
  rw [hdiv, abs_mul, abs_of_pos hunit]
  have hhalf := mul_le_mul_of_nonneg_right (abs_roundEven_sub_le (q / unit)) hunit.le
  linarith

end RoundTo

section Digits
variable {b n : ℕ} {q : ℚ}

/-- The last digit is small beside the number. -/
theorem place_le (hb : 1 < b) (hq : q ≠ 0) : place b n q * b ^ n ≤ |q| * b := by
  have hb0 : (b : ℚ) ≠ 0 := by positivity
  have hlog := Int.zpow_log_le_self hb (abs_pos.mpr hq)
  have hplace : place b n q * b ^ n = (b : ℚ) ^ Int.log b |q| * b := by
    rw [place, ← zpow_natCast, ← zpow_add₀ hb0, sub_add_cancel, zpow_add_one₀ hb0]
  rw [hplace]
  exact mul_le_mul_of_nonneg_right hlog (Nat.cast_nonneg b)

theorem digits_zero : digits b n 0 = 0 := by
  have hzero : roundEven 0 = 0 := roundEven_intCast 0
  rw [digits, roundTo, zero_div, hzero, Int.cast_zero, zero_mul]

end Digits

section Float
variable {p : ℕ} {emin : ℤ} {q : ℚ}

theorem two_zpow_pos (k : ℤ) : (0 : ℚ) < 2 ^ k := zpow_pos two_pos k

theorem abs_lt_lastExponent (p : ℕ) (emin : ℤ) (q : ℚ) :
    |q| < 2 ^ p * 2 ^ lastExponent p emin q := by
  have hlog := Int.lt_zpow_succ_log_self one_lt_two |q|
  rw [← zpow_natCast, ← zpow_add₀ two_ne_zero]
  refine lt_of_lt_of_le hlog ?_
  exact zpow_le_zpow_right₀ one_le_two (by unfold lastExponent; omega)

theorem isFloat_toFloat (p : ℕ) (emin : ℤ) (q : ℚ) : IsFloat p emin (toFloat p emin q) := by
  have hunit := two_zpow_pos (lastExponent p emin q)
  have hsmall : |q / 2 ^ lastExponent p emin q| < 2 ^ p := by
    rw [abs_div, abs_of_pos hunit, div_lt_iff₀ hunit]
    exact abs_lt_lastExponent p emin q
  have hhalf := abs_roundEven_sub_le (q / 2 ^ lastExponent p emin q)
  refine ⟨roundEven (q / 2 ^ lastExponent p emin q), lastExponent p emin q, ?_, le_max_right _ _, rfl⟩
  have hlt : (|roundEven (q / 2 ^ lastExponent p emin q)| : ℚ) < 2 ^ p + 1 := by
    have htriangle := abs_sub_abs_le_abs_sub (roundEven (q / 2 ^ lastExponent p emin q) : ℚ)
      (q / 2 ^ lastExponent p emin q)
    linarith
  exact Int.lt_add_one_iff.mp (by exact_mod_cast hlt)

theorem IsFloat.neg (h : IsFloat p emin q) : IsFloat p emin (-q) := by
  obtain ⟨m, k, hm, hk, rfl⟩ := h
  refine ⟨-m, k, by rwa [abs_neg], hk, ?_⟩
  push_cast
  ring

theorem IsFloat.abs (h : IsFloat p emin q) : IsFloat p emin |q| := by
  rcases abs_choice q with heq | heq
  · rwa [heq]
  · rw [heq]
    exact h.neg

/-- The smallest number of the format but zero. -/
theorem IsFloat.two_zpow_le (h : IsFloat p emin q) (hq : q ≠ 0) : (2 : ℚ) ^ emin ≤ |q| := by
  obtain ⟨m, k, -, hk, rfl⟩ := h
  have hm : (1 : ℚ) ≤ |(m : ℚ)| := by
    have hne : m ≠ 0 := by
      rintro rfl
      exact hq (by rw [Int.cast_zero, zero_mul])
    exact_mod_cast Int.one_le_abs hne
  rw [abs_mul, abs_of_pos (two_zpow_pos k)]
  calc (2 : ℚ) ^ emin ≤ 2 ^ k := zpow_le_zpow_right₀ one_le_two hk
    _ ≤ |(m : ℚ)| * 2 ^ k := le_mul_of_one_le_left (two_zpow_pos k).le hm

/-- No number of the format is nearer. -/
theorem toFloat_nearest (hp : 0 < p) {g : ℚ} (hg : IsFloat p emin g) :
    |toFloat p emin q - q| ≤ |g - q| := by
  obtain ⟨m, k, hm, hk, rfl⟩ := hg
  have hunit := two_zpow_pos (lastExponent p emin q)
  by_cases hle : lastExponent p emin q ≤ k
  · -- it is a multiple of the unit
    obtain ⟨j, hj⟩ := Int.eq_ofNat_of_zero_le (Int.sub_nonneg.mpr hle)
    have hmul : (m : ℚ) * 2 ^ k = ((m * 2 ^ j : ℤ) : ℚ) * 2 ^ lastExponent p emin q := by
      have hk' : k = j + lastExponent p emin q := by omega
      rw [hk', zpow_add₀ two_ne_zero, zpow_natCast]
      push_cast
      ring
    rw [hmul]
    exact roundTo_nearest hunit _
  · -- the power of two below `q` is between them, and it is a multiple of the unit
    by_cases hq : q = 0
    · have hzero : toFloat p emin 0 = 0 := by
        have hround : roundEven 0 = 0 := roundEven_intCast 0
        rw [toFloat, roundTo, zero_div, hround, Int.cast_zero, zero_mul]
      rw [hq, hzero, sub_self, abs_zero]
      exact abs_nonneg _
    have hlast : lastExponent p emin q = Int.log 2 |q| + 1 - p := by
      unfold lastExponent at hle ⊢
      omega
    have hlog : (2 : ℚ) ^ Int.log 2 |q| ≤ |q| := Int.zpow_log_le_self one_lt_two (abs_pos.mpr hq)
    have hpower : ((2 ^ (p - 1) : ℤ) : ℚ) * 2 ^ lastExponent p emin q = 2 ^ Int.log 2 |q| := by
      push_cast
      rw [← zpow_natCast, ← zpow_add₀ two_ne_zero, hlast]
      congr 1
      omega
    have hg : |(m : ℚ) * 2 ^ k| ≤ 2 ^ Int.log 2 |q| := by
      rw [abs_mul, abs_of_pos (two_zpow_pos k)]
      have hm' : |(m : ℚ)| ≤ 2 ^ p := by exact_mod_cast hm
      calc |(m : ℚ)| * 2 ^ k ≤ 2 ^ p * 2 ^ k := mul_le_mul_of_nonneg_right hm' (two_zpow_pos k).le
        _ = 2 ^ (p + k) := by rw [← zpow_natCast, ← zpow_add₀ two_ne_zero]
        _ ≤ 2 ^ Int.log 2 |q| := zpow_le_zpow_right₀ one_le_two (by omega)
    obtain ⟨hlow, hhigh⟩ := abs_le.mp hg
    rcases lt_or_gt_of_ne hq with hneg | hpos
    · refine (roundTo_nearest hunit (-(2 ^ (p - 1) : ℤ))).trans ?_
      rw [Int.cast_neg, neg_mul, hpower]
      rw [abs_of_neg hneg] at hlog hlow ⊢
      rw [abs_of_nonneg (by linarith)]
      exact le_trans (by linarith) (le_abs_self _)
    · refine (roundTo_nearest hunit (2 ^ (p - 1) : ℤ)).trans ?_
      rw [hpower]
      rw [abs_of_pos hpos] at hlog hhigh ⊢
      rw [abs_sub_comm, abs_of_nonneg (by linarith)]
      exact le_trans (by linarith) (neg_le_abs _)

theorem toFloat_eq_self_iff (hp : 0 < p) : toFloat p emin q = q ↔ IsFloat p emin q := by
  constructor
  · intro h
    exact h ▸ isFloat_toFloat p emin q
  · intro h
    have hnearest := toFloat_nearest (q := q) hp h
    rw [sub_self, abs_zero, abs_nonpos_iff, sub_eq_zero] at hnearest
    exact hnearest

theorem abs_le_of_ne {m m' k k' : ℤ} (hle : k ≤ k') (hm : |m| ≤ 2 ^ p)
    (hne : (m : ℚ) * 2 ^ k ≠ m' * 2 ^ k') : |(m : ℚ) * 2 ^ k| ≤ 2 ^ p * |(m : ℚ) * 2 ^ k - m' * 2 ^ k'| := by
  obtain ⟨j, hj⟩ := Int.eq_ofNat_of_zero_le (Int.sub_nonneg.mpr hle)
  have hunit := two_zpow_pos k
  have hmul : (m' : ℚ) * 2 ^ k' = ((m' * 2 ^ j : ℤ) : ℚ) * 2 ^ k := by
    have hk' : k' = j + k := by omega
    rw [hk', zpow_add₀ two_ne_zero, zpow_natCast]
    push_cast
    ring
  rw [hmul] at hne ⊢
  have hdiff : (1 : ℚ) ≤ |(m : ℚ) - (m' * 2 ^ j : ℤ)| := by
    have hint : 1 ≤ |m - m' * 2 ^ j| := by
      apply Int.one_le_abs
      rw [sub_ne_zero]
      rintro heq
      exact hne (by rw [← heq])
    exact_mod_cast hint
  have hm' : |(m : ℚ)| ≤ 2 ^ p := by exact_mod_cast hm
  rw [← sub_mul, abs_mul, abs_mul, abs_of_pos hunit, ← mul_assoc]
  apply mul_le_mul_of_nonneg_right _ hunit.le
  calc |(m : ℚ)| ≤ 2 ^ p := hm'
    _ ≤ 2 ^ p * |(m : ℚ) - (m' * 2 ^ j : ℤ)| := le_mul_of_one_le_right (by positivity) hdiff

/-- Two numbers of the format are far apart. -/
theorem IsFloat.gap {d d' : ℚ} (hd : IsFloat p emin d) (hd' : IsFloat p emin d') (hne : d ≠ d') :
    |d| ≤ (2 ^ p + 1) * |d - d'| := by
  obtain ⟨m, k, hm, -, rfl⟩ := hd
  obtain ⟨m', k', hm', -, rfl⟩ := hd'
  rcases le_total k k' with hle | hle
  · have hgap := abs_le_of_ne hle hm hne
    have hpos := abs_nonneg ((m : ℚ) * 2 ^ k - m' * 2 ^ k')
    linarith
  · have hgap := abs_le_of_ne hle hm' hne.symm
    rw [abs_sub_comm] at hgap
    have htriangle := abs_sub_abs_le_abs_sub ((m : ℚ) * 2 ^ k) (m' * 2 ^ k')
    linarith

theorem abs_sub_le_of_nearer {d t f r : ℚ} (ht : |t - d| ≤ r / 2) (hf : |f - t| ≤ |d - t|) :
    |d - f| ≤ r := by
  have htriangle := abs_sub_le d t f
  rw [abs_sub_comm t f, abs_sub_comm d t] at htriangle
  rw [abs_sub_comm d t] at hf
  linarith

/-- Enough digits identify a number of the format. -/
theorem toFloat_digits {b n : ℕ} {d : ℚ} (hp : 0 < p) (hb : 1 < b) (hn : (2 ^ p + 1) * b < b ^ n)
    (hd : IsFloat p emin d) : toFloat p emin (digits b n d) = d := by
  by_cases hzero : d = 0
  · rw [hzero, digits_zero, ← hzero, toFloat_eq_self_iff hp]
    exact hd
  by_contra hne
  have hplace : 0 < place b n d := zpow_pos (by positivity) _
  have hnear := abs_sub_le_of_nearer (abs_roundTo_sub_le hplace)
    (toFloat_nearest (q := digits b n d) hp hd)
  have hgap := hd.gap (isFloat_toFloat p emin (digits b n d)) (Ne.symm hne)
  have hn' : ((2 : ℚ) ^ p + 1) * b < b ^ n := by exact_mod_cast hn
  have hlt : |d| * b < |d| * b := by
    calc |d| * b ≤ (2 ^ p + 1) * |d - toFloat p emin (digits b n d)| * b :=
          mul_le_mul_of_nonneg_right hgap (Nat.cast_nonneg b)
      _ ≤ (2 ^ p + 1) * place b n d * b := by gcongr
      _ = (2 ^ p + 1) * b * place b n d := by ring
      _ < b ^ n * place b n d := mul_lt_mul_of_pos_right hn' hplace
      _ = place b n d * b ^ n := mul_comm _ _
      _ ≤ |d| * b := place_le hb hzero
  exact lt_irrefl _ hlt

theorem isFloat_intCast (hemin : emin ≤ 0) (z : ℤ) :
    IsFloat p emin z ↔ ∃ (m : ℤ) (k : ℕ), |m| ≤ 2 ^ p ∧ z = m * 2 ^ k := by
  constructor
  · rintro ⟨m, k, hm, -, hz⟩
    by_cases hk : 0 ≤ k
    · obtain ⟨j, rfl⟩ := Int.eq_ofNat_of_zero_le hk
      exact ⟨m, j, hm, by exact_mod_cast hz⟩
    · refine ⟨z, 0, ?_, by simp⟩
      have hm' : |(m : ℚ)| ≤ 2 ^ p := by exact_mod_cast hm
      have hone : (2 : ℚ) ^ k ≤ 1 := zpow_le_one_of_nonpos₀ one_le_two (by omega)
      have hz' : |(z : ℚ)| ≤ 2 ^ p := by
        rw [hz, abs_mul, abs_of_pos (two_zpow_pos k)]
        exact (mul_le_of_le_one_right (abs_nonneg _) hone).trans hm'
      exact_mod_cast hz'
  · rintro ⟨m, k, hm, hz⟩
    exact ⟨m, k, hm, by omega, by rw [hz]; push_cast; rfl⟩

theorem isFloat_of_abs_le (hemin : emin ≤ 0) {z : ℤ} (hz : |z| ≤ 2 ^ p) : IsFloat p emin z :=
  (isFloat_intCast hemin z).mpr ⟨z, 0, hz, by simp⟩

theorem toFloat_zero : toFloat p emin 0 = 0 := by
  have hround : roundEven 0 = 0 := roundEven_intCast 0
  rw [toFloat, roundTo, zero_div, hround, Int.cast_zero, zero_mul]

end Float

end Rounding
