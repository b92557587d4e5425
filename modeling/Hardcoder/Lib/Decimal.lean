import Hardcoder.Lib.Strtol
import Mathlib.Data.List.Basic

/-! Numbers printed in a base, the highest digit first; decimal ones read back by `strtol`, and
hexadecimal ones compared with padded ones. -/

namespace Strtol
set_option autoImplicit false

/-- The digits of `n` in the base, the highest first; `fuel` is above `n`. -/
def digitsOf (base : Nat) : Nat → Nat → List Nat
  | 0, _ => []
  | fuel + 1, n => if n < base then [n] else digitsOf base fuel (n / base) ++ [n % base]

theorem digitsOf_lt {base : Nat} (hbase : 0 < base) {fuel n d : Nat} (h : d ∈ digitsOf base fuel n) :
    d < base := by
  induction fuel generalizing n with
  | zero => exact absurd h List.not_mem_nil
  | succ fuel ih =>
    unfold digitsOf at h
    split at h
    · rename_i hlt
      rwa [List.mem_singleton.mp h]
    · rcases List.mem_append.mp h with h | h
      · exact ih h
      · rw [List.mem_singleton.mp h]
        exact Nat.mod_lt _ hbase

theorem digitsOf_ne_nil {base fuel n : Nat} (h : n < fuel) : digitsOf base fuel n ≠ [] := by
  cases fuel with
  | zero => exact absurd h (Nat.not_lt_zero n)
  | succ fuel =>
    unfold digitsOf
    split
    · exact List.cons_ne_nil n []
    · exact List.append_ne_nil_of_right_ne_nil _ (List.cons_ne_nil _ [])

/-- The number that has the digits. -/
def ofDigits (base : Nat) (digits : List Nat) : Nat := digits.foldl (fun n d => base * n + d) 0

theorem ofDigits_digitsOf {base fuel n : Nat} (hbase : 1 < base) (h : n < fuel) :
    ofDigits base (digitsOf base fuel n) = n := by
  induction fuel generalizing n with
  | zero => exact absurd h (Nat.not_lt_zero n)
  | succ fuel ih =>
    unfold digitsOf
    split
    · rw [ofDigits, List.foldl_cons, List.foldl_nil, Nat.mul_zero, Nat.zero_add]
    · rename_i hge
      have hlt : n / base < n := Nat.div_lt_self (by omega) hbase
      rw [ofDigits, List.foldl_append, ← ofDigits, ih (by omega)]
      exact Nat.div_add_mod n base

/-- `k` digits hold the numbers below the `k`-th power. -/
theorem length_digitsOf_le {base fuel n k : Nat} (hbase : 1 < base) (h : n < fuel) :
    (digitsOf base fuel n).length ≤ k + 1 ↔ n < base ^ (k + 1) := by
  induction fuel generalizing n k with
  | zero => exact absurd h (Nat.not_lt_zero n)
  | succ fuel ih =>
    unfold digitsOf
    split
    · rename_i hlt
      refine iff_of_true (Nat.le_add_left 1 k) (Nat.lt_of_lt_of_le hlt ?_)
      exact Nat.le_self_pow (Nat.succ_ne_zero k) base
    · rename_i hge
      have hlt : n / base < n := Nat.div_lt_self (by omega) hbase
      rw [List.length_append, List.length_singleton, Nat.add_le_add_iff_right]
      cases k with
      | zero =>
        have hpos := List.length_pos_iff.mpr (@digitsOf_ne_nil base fuel (n / base) (by omega))
        refine iff_of_false (by omega) ?_
        rwa [Nat.zero_add, Nat.pow_one]
      | succ k =>
        rw [ih (by omega), Nat.pow_succ base (k + 1)]
        exact Nat.div_lt_iff_lt_mul (by omega)

/-- `%d` of a number that is not negative. -/
def decimal (n : Nat) : List UInt8 := (digitsOf 10 (n + 1) n).map fun d => UInt8.ofNat (48 + d)

/-- `%d` -/
def printed (v : Int) : List UInt8 := if v < 0 then 45 :: decimal v.natAbs else decimal v.natAbs

theorem toNat_digit {d : Nat} (h : d < 10) : (UInt8.ofNat (48 + d)).toNat = 48 + d := by
  rw [UInt8.toNat_ofNat']
  omega

theorem isdigit_digit {d : Nat} (h : d < 10) : isdigit (UInt8.ofNat (48 + d)) = true := by
  have hle : (48 : UInt8) ≤ UInt8.ofNat (48 + d) := by
    rw [UInt8.le_iff_toNat_le, toNat_digit h]
    exact Nat.le_add_right 48 d
  have hge : UInt8.ofNat (48 + d) ≤ 57 := by
    rw [UInt8.le_iff_toNat_le, toNat_digit h]
    change 48 + d ≤ 57
    omega
  rw [isdigit, Bool.and_eq_true, decide_eq_true_eq, decide_eq_true_eq]
  exact ⟨hle, hge⟩

theorem numeral_decimal (n : Nat) : Numeral (decimal n) := by
  constructor
  · rw [decimal, ne_eq, List.map_eq_nil_iff]
    exact digitsOf_ne_nil (Nat.lt_succ_self n)
  · intro c hc
    obtain ⟨d, hd, rfl⟩ := List.mem_map.mp hc
    exact isdigit_digit (digitsOf_lt (by decide) hd)

theorem printed_ne_nil (v : Int) : printed v ≠ [] := by
  unfold printed
  split
  · exact List.cons_ne_nil _ _
  · exact (numeral_decimal _).nonempty

theorem value_digits {digits : List Nat} (h : ∀ d ∈ digits, d < 10) :
    value (digits.map fun d => UInt8.ofNat (48 + d)) = ofDigits 10 digits := by
  rw [value, ofDigits, List.foldl_map]
  refine List.foldl_ext _ _ 0 fun n d hd => ?_
  rw [toNat_digit (h d hd), Nat.add_sub_cancel_left]

theorem value_decimal (n : Nat) : value (decimal n) = n := by
  rw [decimal, value_digits fun d hd => digitsOf_lt (by decide) hd]
  exact ofDigits_digitsOf (by decide) (Nat.lt_succ_self n)

theorem head_digitsOf {base fuel n : Nat} (hbase : 1 < base) (h : n < fuel) (hn : n ≠ 0) :
    ∃ d ds, digitsOf base fuel n = d :: ds ∧ d ≠ 0 := by
  induction fuel generalizing n with
  | zero => exact absurd h (Nat.not_lt_zero n)
  | succ fuel ih =>
    unfold digitsOf
    split
    · exact ⟨n, [], rfl, hn⟩
    · rename_i hge
      have hdiv : n / base ≠ 0 :=
        fun h => hge ((Nat.div_eq_zero_iff_lt (Nat.lt_of_succ_lt hbase)).mp h)
      have hlt : n / base < fuel :=
        Nat.lt_of_lt_of_le (Nat.div_lt_self (Nat.pos_of_ne_zero hn) hbase) (Nat.le_of_lt_succ h)
      obtain ⟨d, ds, hds, hd⟩ := ih hlt hdiv
      exact ⟨d, ds ++ [n % base], by rw [hds, List.cons_append], hd⟩

/-- No leading zero. -/
theorem head_decimal {n : Nat} (hn : n ≠ 0) : ∃ c cs, decimal n = c :: cs ∧ c ≠ 48 := by
  obtain ⟨d, ds, hds, hd⟩ := @head_digitsOf 10 (n + 1) n (by decide) (Nat.lt_succ_self n) hn
  have hlt : d < 10 := @digitsOf_lt 10 (by decide) (n + 1) n d (hds ▸ List.mem_cons_self)
  refine ⟨_, _, by rw [decimal, hds, List.map_cons], fun h => hd ?_⟩
  have hnat := congrArg UInt8.toNat h
  rw [toNat_digit hlt] at hnat
  change 48 + d = 48 at hnat
  omega

/-- A digit string ends where a byte that is none follows. -/
theorem leading_append {digits rest : List UInt8} (hdigits : ∀ c ∈ digits, isdigit c = true)
    (hrest : rest.head?.all fun c => !isdigit c) : leading (digits ++ rest) = value digits := by
  have htake : rest.takeWhile isdigit = [] := by
    cases rest with
    | nil => rfl
    | cons c rest =>
      rw [List.takeWhile_cons_of_neg]
      simpa using hrest
  rw [leading, List.takeWhile_append_of_pos hdigits, htake, List.append_nil]

theorem number_printed (v : Int) {rest : List UInt8} (hrest : rest.head?.all fun c => !isdigit c) :
    number (printed v ++ rest) = v := by
  have hdecimal := numeral_decimal v.natAbs
  have hvalue := leading_append hdecimal.digits hrest
  rw [value_decimal] at hvalue
  by_cases hneg : v < 0
  · rw [printed, if_pos hneg, List.cons_append, number, List.dropWhile_cons_of_neg (by decide)]
    change -(leading (decimal v.natAbs ++ rest) : Int) = v
    rw [hvalue]
    omega
  · obtain ⟨c, digits, hc⟩ := List.exists_cons_of_ne_nil hdecimal.nonempty
    have hdigit : isdigit c = true := hdecimal.digits c (hc ▸ List.mem_cons_self)
    rw [hc, List.cons_append] at hvalue
    rw [printed, if_neg hneg, hc, List.cons_append, number,
      List.dropWhile_cons_of_neg (not_isspace_of_isdigit hdigit)]
    split
    · rename_i heq
      cases heq
      exact absurd hdigit (by decide)
    · rename_i heq
      cases heq
      exact absurd hdigit (by decide)
    · rw [hvalue]
      omega

/-- White space in front of a number. -/
theorem number_space (text : List UInt8) : number (32 :: text) = number text := by
  rw [number, List.dropWhile_cons_of_pos (by decide), number]

/-- An `int` is the number read just when the number is in its range. -/
theorem toInt_atoi_iff (long : CLong) (text : List UInt8) (hlow : -2 ^ 31 ≤ number text) :
    (atoi long text).toInt = number text ↔ number text < 2 ^ 31 := by
  constructor
  · intro h
    rw [← h]
    exact BitVec.toInt_lt
  · intro hhigh
    have hstrtol : strtol long text = number text := by
      rcases long.bound_cases with hb | hb <;> rw [strtol, hb, if_neg (by omega), if_neg (by omega)]
    rw [atoi, hstrtol]
    exact BitVec.toInt_ofInt_eq_self (by decide) hlow hhigh

/-! ### Hexadecimal -/

def hexDigit (d : Nat) : UInt8 := UInt8.ofNat (if d < 10 then 48 + d else 55 + d)

/-- `%X` -/
def hex (n : Nat) : List UInt8 := (digitsOf 16 (n + 1) n).map hexDigit

/-- `%0*X` -/
def padded (width n : Nat) : List UInt8 := List.replicate (width - (hex n).length) 48 ++ hex n

/-- The digits of `%X`. -/
def isxdigit (c : UInt8) : Bool := isdigit c || (65 ≤ c && c ≤ 70)

def hexValue (c : UInt8) : Nat := if c.toNat < 58 then c.toNat - 48 else c.toNat - 55

theorem toNat_hexDigit {d : Nat} (h : d < 16) :
    (hexDigit d).toNat = if d < 10 then 48 + d else 55 + d := by
  rw [hexDigit, UInt8.toNat_ofNat']
  split <;> omega

theorem isxdigit_hexDigit {d : Nat} (h : d < 16) : isxdigit (hexDigit d) = true := by
  have hnat := toNat_hexDigit h
  have h48 : (48 : UInt8).toNat = 48 := rfl
  have h57 : (57 : UInt8).toNat = 57 := rfl
  have h65 : (65 : UInt8).toNat = 65 := rfl
  have h70 : (70 : UInt8).toNat = 70 := rfl
  simp only [isxdigit, isdigit, Bool.or_eq_true, Bool.and_eq_true, decide_eq_true_eq,
    UInt8.le_iff_toNat_le, hnat]
  split <;> omega

theorem isxdigit_padded {width n : Nat} {c : UInt8} (h : c ∈ padded width n) : isxdigit c = true := by
  rcases List.mem_append.mp h with h | h
  · rw [List.eq_of_mem_replicate h]
    decide
  · obtain ⟨d, hd, rfl⟩ := List.mem_map.mp h
    exact isxdigit_hexDigit (digitsOf_lt (by decide) hd)

theorem hexValue_hexDigit {d : Nat} (h : d < 16) : hexValue (hexDigit d) = d := by
  rw [hexValue, toNat_hexDigit h]
  split <;> split <;> omega

theorem map_hexValue (n : Nat) : (hex n).map hexValue = digitsOf 16 (n + 1) n := by
  rw [hex, List.map_map]
  conv_rhs => rw [← List.map_id (digitsOf 16 (n + 1) n)]
  exact List.map_congr_left fun d hd => hexValue_hexDigit (digitsOf_lt (by decide) hd)

theorem hex_injective {n m : Nat} (h : hex n = hex m) : n = m := by
  have hdigits := congrArg (List.map hexValue) h
  rw [map_hexValue, map_hexValue] at hdigits
  have hvalue := congrArg (ofDigits 16) hdigits
  rwa [ofDigits_digitsOf (by decide) (Nat.lt_succ_self n),
    ofDigits_digitsOf (by decide) (Nat.lt_succ_self m)] at hvalue

theorem length_hex_le {n k : Nat} : (hex n).length ≤ k + 1 ↔ n < 16 ^ (k + 1) := by
  rw [hex, List.length_map]
  exact length_digitsOf_le (by decide) (Nat.lt_succ_self n)

theorem head_hex {n : Nat} (hn : n ≠ 0) : ∃ c cs, hex n = c :: cs ∧ c ≠ 48 := by
  obtain ⟨d, ds, hds, hd⟩ := @head_digitsOf 16 (n + 1) n (by decide) (Nat.lt_succ_self n) hn
  have hlt : d < 16 := @digitsOf_lt 16 (by decide) (n + 1) n d (hds ▸ List.mem_cons_self)
  refine ⟨_, _, by rw [hex, hds, List.map_cons], fun h => ?_⟩
  have hnat := congrArg UInt8.toNat h
  rw [toNat_hexDigit hlt] at hnat
  change (if d < 10 then 48 + d else 55 + d) = 48 at hnat
  split at hnat <;> omega

/-- A number that is not padded has just those digits that a padded one is long enough for. -/
theorem hex_eq_padded_iff {width n m : Nat} (hn : n ≠ 0) :
    hex n = padded width m ↔ n = m ∧ width ≤ (hex m).length := by
  constructor
  · intro h
    obtain ⟨c, cs, hcs, hc⟩ := head_hex hn
    rw [padded] at h
    cases hpad : width - (hex m).length with
    | zero =>
      rw [hpad] at h
      exact ⟨hex_injective h, Nat.sub_eq_zero_iff_le.mp hpad⟩
    | succ k =>
      rw [hpad, hcs] at h
      exact absurd (List.cons.inj h).1 hc
  · rintro ⟨rfl, hle⟩
    rw [padded, Nat.sub_eq_zero_of_le hle]
    rfl

theorem length_padded (width n : Nat) : width ≤ (padded width n).length := by
  rw [padded, List.length_append, List.length_replicate]
  omega

end Strtol
