import Hardcoder.Lib.Decimal
import Hardcoder.Lib.Rounding
import Mathlib.Data.List.DropRight

/-! Decimal numerals with a fraction and an exponent: what `strtod` reads, and what the
conversion `%g` of `printf` writes. -/

namespace Strtod
open Strtol Rounding
set_option autoImplicit false

/-- `-` or `+` in front, and whether it is the former. -/
def sign : List UInt8 → Bool × List UInt8
  | 45 :: text => (true, text)
  | 43 :: text => (false, text)
  | text => (false, text)

/-- The digits of the fraction; a point without any digit beside it is not read. -/
def point (whole : List UInt8) : List UInt8 → List UInt8 × List UInt8
  | 46 :: text =>
    if whole = [] ∧ text.takeWhile isdigit = [] then ([], 46 :: text)
    else (text.takeWhile isdigit, text.dropWhile isdigit)
  | text => ([], text)

/-- The exponent; `e` without a digit behind it is not read. -/
def exponent : List UInt8 → Int × List UInt8
  | c :: text =>
    if (c = 101 ∨ c = 69) ∧ (sign text).2.takeWhile isdigit ≠ [] then
      (if (sign text).1 then -(leading (sign text).2 : Int) else leading (sign text).2,
        (sign text).2.dropWhile isdigit)
    else (0, c :: text)
  | [] => (0, [])

/-- The number that a text without white space starts with: whether there is a minus sign,
the exact magnitude, and the text behind it. -/
def strtod (text : List UInt8) : Option (Bool × ℚ × List UInt8) :=
  let body := (sign text).2
  let whole := body.takeWhile isdigit
  let pointed := point whole (body.dropWhile isdigit)
  if whole ++ pointed.1 = [] then none
  else
    let scaled := exponent pointed.2
    some ((sign text).1, value (whole ++ pointed.1) * 10 ^ (scaled.1 - pointed.1.length), scaled.2)

/-- A byte that a number may hold. -/
def isNumberByte (c : UInt8) : Bool := isdigit c || c == 43 || c == 45 || c == 46 || c == 101 || c == 69

/-! ### Numerals -/

inductive Sign where
  | none
  | plus
  | minus
deriving DecidableEq, Repr

namespace Sign

def text : Sign → List UInt8
  | none => []
  | plus => [43]
  | minus => [45]

def apply : Sign → Nat → Int
  | none, n => n
  | plus, n => n
  | minus, n => -n

end Sign

structure Exponent where
  capital : Bool
  sign : Sign
  digits : List UInt8
  numeral : Strtol.Numeral digits

namespace Exponent

def text (e : Exponent) : List UInt8 := (if e.capital then 69 else 101) :: (e.sign.text ++ e.digits)

def value (e : Exponent) : Int := e.sign.apply (Strtol.value e.digits)

end Exponent

/-- A numeral without a sign. -/
structure Numeral where
  whole : List UInt8
  fraction : List UInt8
  exponent : Option Exponent
  numeral : Strtol.Numeral whole
  digits : ∀ c ∈ fraction, isdigit c = true

namespace Numeral

def pointText (n : Numeral) : List UInt8 := if n.fraction = [] then [] else 46 :: n.fraction

def exponentText (n : Numeral) : List UInt8 := (n.exponent.map Exponent.text).getD []

def text (n : Numeral) : List UInt8 := n.whole ++ n.pointText ++ n.exponentText

def scale (n : Numeral) : Int := (n.exponent.map Exponent.value).getD 0

def value (n : Numeral) : ℚ := Strtol.value (n.whole ++ n.fraction) * 10 ^ (n.scale - n.fraction.length)

end Numeral

/-- The text of a numeral with or without a minus sign. -/
def signed (negative : Bool) (text : List UInt8) : List UInt8 := if negative then 45 :: text else text

section Read

/-- No numeral goes on here. -/
def Ends (rest : List UInt8) : Prop := ∀ c ∈ rest.head?, isNumberByte c = false

variable {rest : List UInt8}

theorem takeWhile_digits {digits : List UInt8} (hdigits : ∀ c ∈ digits, isdigit c = true)
    (hrest : ∀ c ∈ rest.head?, isdigit c = false) :
    (digits ++ rest).takeWhile isdigit = digits ∧ (digits ++ rest).dropWhile isdigit = rest := by
  have hnone : rest.takeWhile isdigit = [] ∧ rest.dropWhile isdigit = rest := by
    cases rest with
    | nil => exact ⟨rfl, rfl⟩
    | cons c rest =>
      have hc : ¬ isdigit c = true := by simp [hrest c rfl]
      exact ⟨List.takeWhile_cons_of_neg hc, List.dropWhile_cons_of_neg hc⟩
  rw [List.takeWhile_append_of_pos hdigits, List.dropWhile_append_of_pos hdigits, hnone.1, hnone.2]
  exact ⟨List.append_nil _, rfl⟩

theorem Ends.isdigit (h : Ends rest) : ∀ c ∈ rest.head?, Strtol.isdigit c = false := by
  intro c hc
  have hbyte := h c hc
  simp only [isNumberByte, Bool.or_eq_false_iff] at hbyte
  exact hbyte.1.1.1.1.1

theorem sign_of_digit {c : UInt8} {text : List UInt8} (h : isdigit c = true) :
    sign (c :: text) = (false, c :: text) := by
  unfold sign
  split
  · rename_i heq
    cases heq
    exact absurd h (by decide)
  · rename_i heq
    cases heq
    exact absurd h (by decide)
  · rfl

theorem sign_signed {negative : Bool} {c : UInt8} {text : List UInt8} (h : isdigit c = true) :
    sign (signed negative (c :: text)) = (negative, c :: text) := by
  cases negative with
  | false => exact sign_of_digit h
  | true => rfl

theorem exponent_none (h : Ends rest) : exponent rest = (0, rest) := by
  cases rest with
  | nil => rfl
  | cons c rest =>
    have hc := h c rfl
    rw [exponent, if_neg]
    rintro ⟨rfl | rfl, -⟩ <;> exact absurd hc (by decide)

theorem sign_exponent (s : Sign) {digits : List UInt8} (hdigits : Strtol.Numeral digits) :
    sign (s.text ++ digits ++ rest) = (decide (s = .minus), digits ++ rest) := by
  obtain ⟨c, cs, hc⟩ := List.exists_cons_of_ne_nil hdigits.nonempty
  cases s with
  | none =>
    have hdigit : Strtol.isdigit c = true := hdigits.digits c (hc ▸ List.mem_cons_self)
    rw [hc]
    exact sign_of_digit hdigit
  | plus => rfl
  | minus => rfl

theorem exponent_text (e : Exponent) (h : ∀ c ∈ rest.head?, isdigit c = false) :
    exponent (e.text ++ rest) = (e.value, rest) := by
  obtain ⟨htake, hdrop⟩ := takeWhile_digits e.numeral.digits h
  have hmark : (if e.capital then (69 : UInt8) else 101) = 101 ∨
      (if e.capital then (69 : UInt8) else 101) = 69 := by
    cases e.capital
    · exact .inl rfl
    · exact .inr rfl
  rw [Exponent.text, List.cons_append, exponent, sign_exponent e.sign e.numeral, htake, hdrop, if_pos ⟨hmark, e.numeral.nonempty⟩, leading, htake,
    Exponent.value]
  cases e.sign <;> rfl

theorem scale_text (n : Numeral) (h : Ends rest) :
    exponent (n.exponentText ++ rest) = (n.scale, rest) := by
  unfold Numeral.exponentText Numeral.scale
  cases n.exponent with
  | none => exact exponent_none h
  | some e => exact exponent_text e h.isdigit

theorem head_exponentText (n : Numeral) (h : Ends rest) :
    ∀ c ∈ (n.exponentText ++ rest).head?, isdigit c = false ∧ c ≠ 46 := by
  unfold Numeral.exponentText
  cases n.exponent with
  | none =>
    intro c hc
    refine ⟨h.isdigit c hc, ?_⟩
    rintro rfl
    exact absurd (h 46 hc) (by decide)
  | some e =>
    intro c hc
    cases Option.some.inj hc
    cases e.capital <;> decide

theorem point_text (n : Numeral) (h : Ends rest) :
    point n.whole (n.pointText ++ (n.exponentText ++ rest)) = (n.fraction, n.exponentText ++ rest) := by
  have hhead := head_exponentText n h
  unfold Numeral.pointText
  split
  · rename_i hnil
    rw [hnil, List.nil_append]
    cases htext : n.exponentText ++ rest with
    | nil => rfl
    | cons c text =>
      rw [htext] at hhead
      unfold point
      split
      · rename_i heq
        cases heq
        exact absurd rfl (hhead 46 rfl).2
      · rfl
  · obtain ⟨htake, hdrop⟩ := takeWhile_digits n.digits fun c hc => (hhead c hc).1
    rw [List.cons_append, point, if_neg fun hnil => n.numeral.nonempty hnil.1, htake, hdrop]

theorem head_point (n : Numeral) (h : Ends rest) :
    ∀ c ∈ (n.pointText ++ (n.exponentText ++ rest)).head?, isdigit c = false := by
  unfold Numeral.pointText
  split
  · exact fun c hc => (head_exponentText n h c hc).1
  · intro c hc
    cases Option.some.inj hc
    rfl

theorem isNumberByte_of_isdigit {c : UInt8} (h : isdigit c = true) : isNumberByte c = true := by
  simp only [isNumberByte, h, Bool.true_or]

theorem isNumberByte_text (negative : Bool) (n : Numeral) :
    ∀ c ∈ signed negative n.text, isNumberByte c = true := by
  have hexponent : ∀ c ∈ n.exponentText, isNumberByte c = true := by
    unfold Numeral.exponentText
    cases n.exponent with
    | none => exact fun c hc => absurd hc List.not_mem_nil
    | some e =>
      have hsign : ∀ c ∈ e.sign.text, isNumberByte c = true := by
        cases e.sign with
        | none => exact List.forall_mem_nil _
        | plus => exact List.forall_mem_singleton.mpr rfl
        | minus => exact List.forall_mem_singleton.mpr rfl
      refine List.forall_mem_cons.mpr ⟨by cases e.capital <;> rfl, ?_⟩
      exact List.forall_mem_append.mpr
        ⟨hsign, fun c hc => isNumberByte_of_isdigit (e.numeral.digits c hc)⟩
  have hpoint : ∀ c ∈ n.pointText, isNumberByte c = true := by
    unfold Numeral.pointText
    split
    · exact fun c hc => absurd hc List.not_mem_nil
    · exact List.forall_mem_cons.mpr ⟨rfl, fun c hc => isNumberByte_of_isdigit (n.digits c hc)⟩
  have htext : ∀ c ∈ n.text, isNumberByte c = true :=
    List.forall_mem_append.mpr ⟨List.forall_mem_append.mpr
      ⟨fun c hc => isNumberByte_of_isdigit (n.numeral.digits c hc), hpoint⟩, hexponent⟩
  cases negative with
  | false => exact htext
  | true => exact List.forall_mem_cons.mpr ⟨rfl, htext⟩

/-- A numeral is read to its end. -/
theorem strtod_text (negative : Bool) (n : Numeral) (h : Ends rest) :
    strtod (signed negative n.text ++ rest) = some (negative, n.value, rest) := by
  obtain ⟨c, cs, hc⟩ := List.exists_cons_of_ne_nil n.numeral.nonempty
  have hdigit : isdigit c = true := n.numeral.digits c (hc ▸ List.mem_cons_self)
  have htext : n.text ++ rest = n.whole ++ (n.pointText ++ (n.exponentText ++ rest)) := by
    simp only [Numeral.text, List.append_assoc]
  have hsign : sign (signed negative n.text ++ rest) = (negative, n.text ++ rest) := by
    have happend : signed negative n.text ++ rest = signed negative (n.text ++ rest) := by
      cases negative <;> rfl
    rw [happend, htext, hc, List.cons_append]
    exact sign_signed hdigit
  obtain ⟨htake, hdrop⟩ := takeWhile_digits n.numeral.digits (head_point n h)
  unfold strtod
  rw [hsign, htext]
  dsimp only
  rw [htake, hdrop, point_text n h]
  dsimp only
  rw [if_neg (List.append_ne_nil_of_left_ne_nil n.numeral.nonempty _), scale_text n h, Numeral.value]

theorem length_sign_le (text : List UInt8) : (sign text).2.length ≤ text.length := by
  unfold sign
  split
  · exact Nat.le_succ _
  · exact Nat.le_succ _
  · exact Nat.le_refl _

theorem length_takeWhile_add (p : UInt8 → Bool) (text : List UInt8) :
    (text.takeWhile p).length + (text.dropWhile p).length = text.length := by
  rw [← List.length_append, List.takeWhile_append_dropWhile]

theorem length_point_le (whole text : List UInt8) :
    (point whole text).1.length + (point whole text).2.length ≤ text.length := by
  unfold point
  split
  · rename_i text
    split
    · exact Nat.le_of_eq (Nat.zero_add _)
    · have hsplit := length_takeWhile_add isdigit text
      rw [List.length_cons]
      dsimp only
      omega
  · exact Nat.le_of_eq (Nat.zero_add _)

theorem length_exponent_le (text : List UInt8) : (exponent text).2.length ≤ text.length := by
  cases text with
  | nil => exact Nat.le_refl _
  | cons c text =>
    have hsign := length_sign_le text
    have hdrop := length_takeWhile_add isdigit (sign text).2
    rw [exponent]
    split
    · rw [List.length_cons]
      dsimp only
      omega
    · exact Nat.le_refl _

/-- What is read has a digit. -/
theorem length_strtod_lt {text : List UInt8} {r : Bool × ℚ × List UInt8} (h : strtod text = some r) :
    r.2.2.length < text.length := by
  unfold strtod at h
  dsimp only at h
  split at h
  · cases h
  · rename_i hne
    cases h
    have hsign := length_sign_le text
    have hwhole := length_takeWhile_add isdigit (sign text).2
    have hpoint := length_point_le ((sign text).2.takeWhile isdigit) ((sign text).2.dropWhile isdigit)
    have hexponent := length_exponent_le
      (point ((sign text).2.takeWhile isdigit) ((sign text).2.dropWhile isdigit)).2
    have hpos := List.length_pos_iff.mpr hne
    rw [List.length_append] at hpos
    dsimp only
    omega

end Read

/-! ### `%g` -/

/-- The digits that `%.*g` writes, as a number, and the exponent of the first. -/
def significand (p : ℕ) (q : ℚ) : ℕ × ℤ :=
  let m := (roundEven (q / place 10 p q)).toNat
  if m = 10 ^ p then (10 ^ (p - 1), Int.log 10 |q| + 1) else (m, Int.log 10 |q|)

/-- Without the zeros at the end. -/
def trimmed (m : ℕ) : List UInt8 := (decimal m).rdropWhile (· == 48)

/-- An exponent has two digits at least. -/
def padExponent (n : ℕ) : List UInt8 := if n < 10 then 48 :: decimal n else decimal n

/-- `%.*g` of a positive number. -/
def general (p : ℕ) (q : ℚ) : List UInt8 :=
  let x := (significand p q).2
  let ds := trimmed (significand p q).1
  if x < -4 ∨ p ≤ x then
    ds.take 1 ++ (if ds.drop 1 = [] then [] else 46 :: ds.drop 1) ++
      101 :: (if x < 0 then 45 else 43) :: padExponent x.natAbs
  else if x < 0 then 48 :: 46 :: (List.replicate (-x - 1).toNat 48 ++ ds)
  else if ds.length ≤ x.toNat + 1 then ds ++ List.replicate (x.toNat + 1 - ds.length) 48
  else ds.take (x.toNat + 1) ++ 46 :: ds.drop (x.toNat + 1)

section Digits

theorem value_append (a b : List UInt8) :
    Strtol.value (a ++ b) = Strtol.value a * 10 ^ b.length + Strtol.value b := by
  induction b using List.reverseRecOn with
  | nil => simp [Strtol.value]
  | append_singleton b c ih =>
    have hlast (l : List UInt8) :
        Strtol.value (l ++ [c]) = 10 * Strtol.value l + (c.toNat - 48) := by
      rw [Strtol.value, List.foldl_append]
      rfl
    rw [← List.append_assoc, hlast, hlast, ih, List.length_append, List.length_singleton, pow_succ]
    ring

theorem value_replicate (k : ℕ) : Strtol.value (List.replicate k 48) = 0 := by
  induction k with
  | zero => rfl
  | succ k ih =>
    rw [List.replicate_succ', value_append, ih]
    rfl

theorem value_zeros_append (k : ℕ) (a : List UInt8) :
    Strtol.value (List.replicate k 48 ++ a) = Strtol.value a := by
  rw [value_append, value_replicate, Nat.zero_mul, Nat.zero_add]

theorem value_append_zeros (a : List UInt8) (k : ℕ) :
    Strtol.value (a ++ List.replicate k 48) = Strtol.value a * 10 ^ k := by
  rw [value_append, value_replicate, Nat.add_zero, List.length_replicate]

theorem length_decimal {p m : ℕ} (hp : 0 < p) (hlow : 10 ^ (p - 1) ≤ m) (hhigh : m < 10 ^ p) :
    (decimal m).length = p := by
  have hlen (k : ℕ) : (decimal m).length ≤ k + 1 ↔ m < 10 ^ (k + 1) := by
    rw [decimal, List.length_map]
    exact length_digitsOf_le (by decide) (Nat.lt_succ_self m)
  obtain ⟨k, rfl⟩ := Nat.exists_eq_succ_of_ne_zero hp.ne'
  have hle := (hlen k).mpr hhigh
  cases k with
  | zero =>
    have hne := List.length_pos_iff.mpr (numeral_decimal m).nonempty
    omega
  | succ k =>
    have hnot := mt (hlen k).mp (Nat.not_lt.mpr hlow)
    omega

/-- The digits that are left, and the zeros that went. -/
theorem trimmed_zeros (m : ℕ) : ∃ k, decimal m = trimmed m ++ List.replicate k 48 := by
  refine ⟨((decimal m).rtakeWhile (· == 48)).length, ?_⟩
  have hzeros : (decimal m).rtakeWhile (· == 48) =
      List.replicate ((decimal m).rtakeWhile (· == 48)).length 48 := by
    rw [List.eq_replicate_iff]
    exact ⟨rfl, fun c hc => by simpa using List.mem_rtakeWhile_imp hc⟩
  rw [← hzeros, trimmed, List.rdropWhile_append_rtakeWhile]

theorem digits_trimmed {m : ℕ} : ∀ c ∈ trimmed m, isdigit c = true := by
  obtain ⟨k, hk⟩ := trimmed_zeros m
  intro c hc
  exact (numeral_decimal m).digits c (hk ▸ List.mem_append_left _ hc)

theorem head_trimmed {m : ℕ} (hm : m ≠ 0) : ∃ c cs, trimmed m = c :: cs ∧ c ≠ 48 := by
  obtain ⟨c, cs, hcs, hc⟩ := head_decimal hm
  obtain ⟨k, hk⟩ := trimmed_zeros m
  cases htrim : trimmed m with
  | nil =>
    rw [htrim, List.nil_append, hcs] at hk
    cases k with
    | zero => cases hk
    | succ k => exact absurd (List.cons.inj hk).1 hc
  | cons d ds =>
    rw [htrim, hcs, List.cons_append] at hk
    exact ⟨d, ds, rfl, (List.cons.inj hk).1 ▸ hc⟩

theorem length_trimmed_le (m : ℕ) : (trimmed m).length ≤ (decimal m).length := by
  obtain ⟨k, hk⟩ := trimmed_zeros m
  rw [hk, List.length_append]
  exact Nat.le_add_right _ _

theorem value_trimmed {p m : ℕ} (hlen : (decimal m).length = p) :
    (m : ℚ) = Strtol.value (trimmed m) * 10 ^ ((p : ℤ) - (trimmed m).length) := by
  obtain ⟨k, hk⟩ := trimmed_zeros m
  have hp : (p : ℤ) - (trimmed m).length = (k : ℕ) := by
    rw [← hlen, hk, List.length_append, List.length_replicate]
    omega
  rw [hp, zpow_natCast]
  have hvalue := value_append_zeros (trimmed m) k
  rw [← hk, value_decimal] at hvalue
  exact_mod_cast hvalue

theorem numeral_padExponent (n : ℕ) : Strtol.Numeral (padExponent n) := by
  have hdecimal := numeral_decimal n
  unfold padExponent
  split
  · exact ⟨List.cons_ne_nil _ _, List.forall_mem_cons.mpr ⟨rfl, hdecimal.digits⟩⟩
  · exact hdecimal

theorem value_padExponent (n : ℕ) : Strtol.value (padExponent n) = n := by
  unfold padExponent
  split
  · have hzero := value_zeros_append 1 (decimal n)
    rwa [value_decimal] at hzero
  · exact value_decimal n

theorem length_padExponent {n : ℕ} (h : n < 1000) : (padExponent n).length ≤ 3 := by
  have hlen (k : ℕ) : (decimal n).length ≤ k + 1 ↔ n < 10 ^ (k + 1) := by
    rw [decimal, List.length_map]
    exact length_digitsOf_le (by decide) (Nat.lt_succ_self n)
  unfold padExponent
  split
  · rename_i hlt
    have hone := (hlen 0).mpr (by omega)
    rw [List.length_cons]
    omega
  · exact (hlen 2).mpr (by omega)

end Digits

section General
variable {p : ℕ} {q : ℚ}

theorem le_roundEven {n : ℤ} {r : ℚ} (h : n ≤ r) : n ≤ roundEven r := by
  have hfloor : n ≤ ⌊r⌋ := Int.le_floor.mpr h
  unfold roundEven
  split
  · exact hfloor
  split
  · omega
  split
  · exact hfloor
  · omega

theorem roundEven_le {n : ℤ} {r : ℚ} (h : r < n) : roundEven r ≤ n := by
  have hfloor : ⌊r⌋ < n := Int.floor_lt.mpr h
  unfold roundEven
  split
  · omega
  split
  · omega
  split
  · omega
  · omega

/-- Between the powers of ten that `p` digits reach. -/
theorem roundEven_place (hp : 0 < p) (hq : 0 < q) :
    (10 : ℤ) ^ (p - 1) ≤ roundEven (q / place 10 p q) ∧ roundEven (q / place 10 p q) ≤ 10 ^ p := by
  have hplace : place 10 p q = (10 : ℚ) ^ (Int.log 10 q + 1 - p) := by
    rw [place, abs_of_pos hq]
    rfl
  have hten : (0 : ℚ) < 10 := by norm_num
  have hpos : (0 : ℚ) < 10 ^ (Int.log 10 q + 1 - p) := zpow_pos hten _
  have hlow : (10 : ℚ) ^ Int.log 10 q ≤ q := Int.zpow_log_le_self (by norm_num) hq
  have hhigh : q < (10 : ℚ) ^ (Int.log 10 q + 1) := Int.lt_zpow_succ_log_self (by norm_num) q
  constructor
  · apply le_roundEven
    rw [hplace, le_div_iff₀ hpos]
    push_cast
    rw [← zpow_natCast, ← zpow_add₀ hten.ne']
    have hexp : ((p - 1 : ℕ) : ℤ) + (Int.log 10 q + 1 - p) = Int.log 10 q := by omega
    rwa [hexp]
  · apply roundEven_le
    rw [hplace, div_lt_iff₀ hpos]
    push_cast
    rw [← zpow_natCast, ← zpow_add₀ hten.ne']
    have hexp : (p : ℤ) + (Int.log 10 q + 1 - p) = Int.log 10 q + 1 := by omega
    rwa [hexp]

theorem significand_bounds (hp : 0 < p) (hq : 0 < q) :
    10 ^ (p - 1) ≤ (significand p q).1 ∧ (significand p q).1 < 10 ^ p := by
  obtain ⟨hlow, hhigh⟩ := roundEven_place hp hq
  have hnat : ((roundEven (q / place 10 p q)).toNat : ℤ) = roundEven (q / place 10 p q) :=
    Int.toNat_of_nonneg (le_trans (by positivity) hlow)
  unfold significand
  dsimp only
  split
  · exact ⟨le_rfl, Nat.pow_lt_pow_right (by norm_num) (by omega)⟩
  · rename_i hne
    rw [← hnat] at hlow hhigh
    have hlow' : 10 ^ (p - 1) ≤ (roundEven (q / place 10 p q)).toNat := by exact_mod_cast hlow
    have hhigh' : (roundEven (q / place 10 p q)).toNat ≤ 10 ^ p := by exact_mod_cast hhigh
    exact ⟨hlow', lt_of_le_of_ne hhigh' hne⟩

/-- The digits with their exponent are the number that is rounded to. -/
theorem significand_value (hp : 0 < p) (hq : 0 < q) :
    ((significand p q).1 : ℚ) * 10 ^ ((significand p q).2 + 1 - p) = digits 10 p q := by
  have hlow := (roundEven_place hp hq).1
  have hnat : ((roundEven (q / place 10 p q)).toNat : ℤ) = roundEven (q / place 10 p q) :=
    Int.toNat_of_nonneg (le_trans (by positivity) hlow)
  have hcast : ((roundEven (q / place 10 p q)).toNat : ℚ) = roundEven (q / place 10 p q) := by
    exact_mod_cast hnat
  have hten : (10 : ℚ) ≠ 0 := by norm_num
  rw [digits, roundTo, ← hcast]
  unfold significand
  dsimp only
  split
  · rename_i heq
    rw [heq, place]
    push_cast
    rw [← zpow_natCast, ← zpow_natCast, ← zpow_add₀ hten, ← zpow_add₀ hten]
    congr 1
    omega
  · rw [place]
    rfl

/-- The value of the digits, wherever the point stands. -/
theorem value_significand (hp : 0 < p) (hq : 0 < q) :
    (Strtol.value (trimmed (significand p q).1) : ℚ) *
      10 ^ ((significand p q).2 + 1 - (trimmed (significand p q).1).length) = digits 10 p q := by
  obtain ⟨hlow, hhigh⟩ := significand_bounds hp hq
  have hten : (10 : ℚ) ≠ 0 := by norm_num
  rw [← significand_value hp hq]
  conv_rhs => rw [value_trimmed (length_decimal hp hlow hhigh)]
  rw [mul_assoc, ← zpow_add₀ hten]
  congr 2
  omega

/-- No zero in front of other digits. -/
def Numeral.Plain (n : Numeral) : Prop := n.whole = [48] ∨ n.whole.head? ≠ some 48

/-- The text of `%g` is that of a plain numeral with the rounded value. -/
structure Writes (p : ℕ) (q : ℚ) (n : Numeral) : Prop where
  text : n.text = general p q
  value : n.value = digits 10 p q
  plain : n.Plain

theorem numeral_digits {ds : List UInt8} (hnil : ds ≠ []) (hds : ∀ c ∈ ds, isdigit c = true) :
    Strtol.Numeral ds := ⟨hnil, hds⟩

theorem digits_replicate {k : ℕ} : ∀ c ∈ List.replicate k (48 : UInt8), isdigit c = true := by
  intro c hc
  rw [List.eq_of_mem_replicate hc]
  rfl

/-- One digit before the point and an exponent. -/
theorem writes_exponent (hp : 0 < p) (hq : 0 < q)
    (hx : (significand p q).2 < -4 ∨ p ≤ (significand p q).2) : ∃ n, Writes p q n := by
  obtain ⟨c, cs, hcs, hc⟩ := head_trimmed (m := (significand p q).1)
    (ne_of_gt (lt_of_lt_of_le (by positivity) (significand_bounds hp hq).1))
  have hdigits := @digits_trimmed (significand p q).1
  have hvalue := value_significand hp hq
  rw [hcs] at hdigits hvalue
  rw [List.forall_mem_cons] at hdigits
  refine ⟨⟨[c], cs, some ⟨false, if (significand p q).2 < 0 then .minus else .plus,
    padExponent (significand p q).2.natAbs, numeral_padExponent _⟩,
    numeral_digits (List.cons_ne_nil c []) (by simpa using hdigits.1), hdigits.2⟩, ?_, ?_, ?_⟩
  · simp only [general, hcs, if_pos hx, Numeral.text, Numeral.pointText, Numeral.exponentText,
      Option.map_some, Option.getD_some, Exponent.text, List.take_succ_cons, List.take_zero,
      List.drop_succ_cons, List.drop_zero]
    by_cases hneg : (significand p q).2 < 0
    · rw [if_pos hneg, if_pos hneg]
      rfl
    · rw [if_neg hneg, if_neg hneg]
      rfl
  · have hscale : (if (significand p q).2 < 0 then Sign.minus else .plus).apply
        (Strtol.value (padExponent (significand p q).2.natAbs)) = (significand p q).2 := by
      rw [value_padExponent]
      split <;> simp only [Sign.apply] <;> omega
    simp only [Numeral.value, Numeral.scale, Option.map_some, Option.getD_some, Exponent.value, hscale]
    rw [← hvalue, List.singleton_append, List.length_cons]
    congr 2
    push_cast
    omega
  · exact .inr fun heq => hc (Option.some.inj heq)

/-- Zeros behind the point. -/
theorem writes_small (hp : 0 < p) (hq : 0 < q)
    (hx : ¬ ((significand p q).2 < -4 ∨ p ≤ (significand p q).2)) (hneg : (significand p q).2 < 0) :
    ∃ n, Writes p q n := by
  have hvalue := value_significand hp hq
  obtain ⟨c, cs, hcs, -⟩ := head_trimmed (m := (significand p q).1)
    (ne_of_gt (lt_of_lt_of_le (by positivity) (significand_bounds hp hq).1))
  refine ⟨⟨[48], List.replicate (-(significand p q).2 - 1).toNat 48 ++ trimmed (significand p q).1, none,
    numeral_digits (List.cons_ne_nil _ _) (List.forall_mem_singleton.mpr rfl), ?_⟩, ?_, ?_, .inl rfl⟩
  · exact List.forall_mem_append.mpr ⟨digits_replicate, digits_trimmed⟩
  · have hne : List.replicate (-(significand p q).2 - 1).toNat 48 ++ trimmed (significand p q).1 ≠ [] := by
      rw [hcs]
      exact List.append_ne_nil_of_right_ne_nil _ (List.cons_ne_nil _ _)
    simp only [general, if_neg hx, if_pos hneg, Numeral.text, Numeral.pointText, if_neg hne,
      Numeral.exponentText, Option.map_none, Option.getD_none, List.append_nil]
    rfl
  · simp only [Numeral.value, Numeral.scale, Option.map_none, Option.getD_none]
    have hzero (a : List UInt8) : Strtol.value ([48] ++ a) = Strtol.value a := value_zeros_append 1 a
    rw [← hvalue, hzero, value_zeros_append, List.length_append, List.length_replicate]
    congr 2
    push_cast
    omega

/-- All digits before the point, with zeros behind them. -/
theorem writes_whole (hp : 0 < p) (hq : 0 < q)
    (hx : ¬ ((significand p q).2 < -4 ∨ p ≤ (significand p q).2)) (hneg : ¬ (significand p q).2 < 0)
    (hlen : (trimmed (significand p q).1).length ≤ (significand p q).2.toNat + 1) :
    ∃ n, Writes p q n := by
  have hvalue := value_significand hp hq
  obtain ⟨c, cs, hcs, hc⟩ := head_trimmed (m := (significand p q).1)
    (ne_of_gt (lt_of_lt_of_le (by positivity) (significand_bounds hp hq).1))
  refine ⟨⟨trimmed (significand p q).1 ++
    List.replicate ((significand p q).2.toNat + 1 - (trimmed (significand p q).1).length) 48, [], none,
    numeral_digits ?_ ?_, fun c hc => absurd hc List.not_mem_nil⟩, ?_, ?_, ?_⟩
  · rw [hcs]
    exact List.cons_ne_nil _ _
  · exact List.forall_mem_append.mpr ⟨digits_trimmed, digits_replicate⟩
  · simp only [general, if_neg hx, if_neg hneg, if_pos hlen, Numeral.text, Numeral.pointText, if_pos,
      Numeral.exponentText, Option.map_none, Option.getD_none, List.append_nil]
  · simp only [Numeral.value, Numeral.scale, Option.map_none, Option.getD_none, List.append_nil,
      List.length_nil]
    rw [value_append_zeros, ← hvalue]
    push_cast
    rw [← zpow_natCast]
    have hexp : (((significand p q).2.toNat + 1 - (trimmed (significand p q).1).length : ℕ) : ℤ) =
        (significand p q).2 + 1 - (trimmed (significand p q).1).length := by omega
    rw [hexp, mul_one]
  · refine .inr fun heq => hc ?_
    dsimp only at heq
    rw [hcs, List.cons_append] at heq
    exact Option.some.inj heq

/-- The point among the digits. -/
theorem writes_point (hp : 0 < p) (hq : 0 < q)
    (hx : ¬ ((significand p q).2 < -4 ∨ p ≤ (significand p q).2)) (hneg : ¬ (significand p q).2 < 0)
    (hlen : ¬ (trimmed (significand p q).1).length ≤ (significand p q).2.toNat + 1) :
    ∃ n, Writes p q n := by
  have hvalue := value_significand hp hq
  have hdigits := @digits_trimmed (significand p q).1
  obtain ⟨c, cs, hcs, hc⟩ := head_trimmed (m := (significand p q).1)
    (ne_of_gt (lt_of_lt_of_le (by positivity) (significand_bounds hp hq).1))
  refine ⟨⟨(trimmed (significand p q).1).take ((significand p q).2.toNat + 1),
    (trimmed (significand p q).1).drop ((significand p q).2.toNat + 1), none,
    numeral_digits ?_ fun c hc => hdigits c (List.mem_of_mem_take hc),
    fun c hc => hdigits c (List.mem_of_mem_drop hc)⟩, ?_, ?_, ?_⟩
  · rw [hcs]
    exact List.cons_ne_nil _ _
  · have hne : (trimmed (significand p q).1).drop ((significand p q).2.toNat + 1) ≠ [] := by
      rw [ne_eq, List.drop_eq_nil_iff]
      exact hlen
    simp only [general, if_neg hx, if_neg hneg, if_neg hlen, Numeral.text, Numeral.pointText, if_neg hne,
      Numeral.exponentText, Option.map_none, Option.getD_none, List.append_nil]
  · simp only [Numeral.value, Numeral.scale, Option.map_none, Option.getD_none,
      List.take_append_drop, List.length_drop]
    rw [← hvalue]
    congr 2
    omega
  · refine .inr fun heq => hc ?_
    dsimp only at heq
    rw [hcs, List.take_succ_cons] at heq
    exact Option.some.inj heq

theorem exists_writes (hp : 0 < p) (hq : 0 < q) : ∃ n, Writes p q n := by
  by_cases hx : (significand p q).2 < -4 ∨ p ≤ (significand p q).2
  · exact writes_exponent hp hq hx
  by_cases hneg : (significand p q).2 < 0
  · exact writes_small hp hq hx hneg
  by_cases hlen : (trimmed (significand p q).1).length ≤ (significand p q).2.toNat + 1
  · exact writes_whole hp hq hx hneg hlen
  · exact writes_point hp hq hx hneg hlen

/-- Exponents of three digits leave room for six more characters than digits. -/
theorem length_general_le (hp : 0 < p) (hq : 0 < q) (hx : (significand p q).2.natAbs < 1000) :
    (general p q).length ≤ p + 6 := by
  obtain ⟨hlow, hhigh⟩ := significand_bounds hp hq
  have hlen := length_trimmed_le (significand p q).1
  rw [length_decimal hp hlow hhigh] at hlen
  have hpad := length_padExponent hx
  obtain ⟨c, cs, hcs, -⟩ := head_trimmed (m := (significand p q).1)
    (ne_of_gt (lt_of_lt_of_le (by positivity) hlow))
  rw [hcs, List.length_cons] at hlen
  unfold general
  dsimp only
  rw [hcs]
  split
  · simp only [List.take_succ_cons, List.take_zero, List.drop_succ_cons, List.drop_zero,
      List.length_append, List.length_cons, List.length_nil]
    split <;> simp <;> omega
  split
  · simp only [List.length_cons, List.length_append, List.length_replicate]
    omega
  split
  · simp only [List.length_cons, List.length_append, List.length_replicate]
    omega
  · simp only [List.length_append, List.length_cons, List.length_take, List.length_drop]
    omega

end General

end Strtod
