import Mathlib.Data.List.TakeWhile
import Mathlib.Tactic.NormNum

/-! Decimal numbers in C strings: `strtol` in base ten, and `atoi` by way of it. -/

namespace Strtol
set_option autoImplicit false

/-- The bytes of a literal. -/
def ascii (literal : String) : List UInt8 := literal.toList.map fun c => UInt8.ofNat c.toNat

def isspace (c : UInt8) : Bool := c == 32 || (9 ≤ c && c ≤ 13)

def isdigit (c : UInt8) : Bool := 48 ≤ c && c ≤ 57

def value (digits : List UInt8) : Nat := digits.foldl (fun n c => 10 * n + (c.toNat - 48)) 0

def leading (text : List UInt8) : Nat := value (text.takeWhile isdigit)

/-- The number the text starts with, after white space and a sign; 0 if it starts with none. -/
def number (text : List UInt8) : Int :=
  match text.dropWhile isspace with
  | 45 :: text => -(leading text : Int)
  | 43 :: text => leading text
  | text => leading text

/-- A byte that no number contains or starts behind. -/
def stops (c : UInt8) : Bool := !isspace c && !isdigit c && c != 45 && c != 43

/-- The two sizes of `long`. -/
inductive CLong where
  | ilp32
  | lp64
deriving DecidableEq, Repr

namespace CLong

/-- `LONG_MAX + 1` -/
def bound : CLong → Int
  | ilp32 => 2 ^ 31
  | lp64 => 2 ^ 63

theorem bound_cases (long : CLong) : long.bound = 2 ^ 31 ∨ long.bound = 2 ^ 63 := by
  cases long with
  | ilp32 => exact .inl rfl
  | lp64 => exact .inr rfl

end CLong

variable (long : CLong)

/-- A number outside the range of `long` is read as its nearest end. -/
def strtol (text : List UInt8) : Int :=
  if number text < -long.bound then -long.bound
  else if long.bound ≤ number text then long.bound - 1
  else number text

/-- `(int) strtol(text, NULL, 10)` -/
def atoi (text : List UInt8) : BitVec 32 := BitVec.ofInt 32 (strtol long text)

theorem mem_dropWhile {p : UInt8 → Bool} {c : UInt8} (hp : p c = false) {text : List UInt8}
    (h : c ∈ text) : c ∈ text.dropWhile p := by
  rw [← @List.takeWhile_append_dropWhile _ p text, List.mem_append] at h
  refine h.resolve_left fun hmem => ?_
  rw [List.mem_takeWhile_imp hmem] at hp
  cases hp

/-- What comes behind a byte that stops a number is not read. -/
theorem number_append {c : UInt8} (hc : stops c = true) {text : List UInt8} (h : c ∈ text)
    (rest : List UInt8) : number (text ++ rest) = number text := by
  simp only [stops, Bool.and_eq_true, Bool.not_eq_true', bne_iff_ne, ne_eq] at hc
  obtain ⟨⟨⟨hspace, hdigit⟩, hminus⟩, hplus⟩ := hc
  have hleading {text : List UInt8} (h : c ∈ text) : leading (text ++ rest) = leading text := by
    have hshort : (text.takeWhile isdigit).length ≠ text.length := by
      intro hlen
      have hall := (List.takeWhile_prefix isdigit).eq_of_length hlen
      rw [List.takeWhile_eq_self_iff.mp hall c h] at hdigit
      cases hdigit
    rw [leading, List.takeWhile_append, if_neg hshort, leading]
  have hmem := mem_dropWhile hspace h
  have hdrop : (text ++ rest).dropWhile isspace = text.dropWhile isspace ++ rest := by
    rw [List.dropWhile_append, if_neg]
    rw [List.isEmpty_iff]
    exact List.ne_nil_of_mem hmem
  unfold number
  rw [hdrop]
  generalize text.dropWhile isspace = digits at hmem
  cases digits with
  | nil => exact absurd hmem List.not_mem_nil
  | cons d digits =>
    rw [List.cons_append]
    split
    · rename_i text' heq
      obtain ⟨rfl, rfl⟩ := List.cons.inj heq
      rw [hleading ((List.mem_cons.mp hmem).resolve_left hminus)]
      rfl
    · rename_i text' heq
      obtain ⟨rfl, rfl⟩ := List.cons.inj heq
      rw [hleading ((List.mem_cons.mp hmem).resolve_left hplus)]
      rfl
    · rename_i hnotminus hnotplus
      rw [← List.cons_append, hleading hmem]
      split
      · rename_i heq
        cases heq
        exact absurd rfl (hnotminus _)
      · rename_i heq
        cases heq
        exact absurd rfl (hnotplus _)
      · rfl

/-- A text that is a decimal number and nothing else. -/
structure Numeral (text : List UInt8) : Prop where
  nonempty : text ≠ []
  digits : ∀ c ∈ text, isdigit c = true

instance (text : List UInt8) : Decidable (Numeral text) :=
  decidable_of_iff ((!text.isEmpty && text.all isdigit) = true)
    ⟨fun h => by
      simp only [Bool.and_eq_true, Bool.not_eq_true', List.isEmpty_eq_false_iff,
        List.all_eq_true] at h
      exact ⟨h.1, h.2⟩,
    fun h => by
      simp only [Bool.and_eq_true, Bool.not_eq_true', List.isEmpty_eq_false_iff,
        List.all_eq_true]
      exact ⟨h.nonempty, h.digits⟩⟩

theorem not_isspace_of_isdigit {c : UInt8} (h : isdigit c = true) : ¬ isspace c = true := by
  simp only [isdigit, isspace, Bool.and_eq_true, Bool.or_eq_true, decide_eq_true_eq, beq_iff_eq,
    UInt8.le_iff_toNat_le] at h ⊢
  rintro (rfl | hs)
  · exact absurd h (by decide)
  · have h48 : (48 : UInt8).toNat = 48 := rfl
    have h13 : (13 : UInt8).toNat = 13 := rfl
    omega

theorem leading_numeral {text : List UInt8} (h : Numeral text) : leading text = value text := by
  rw [leading, List.takeWhile_eq_self_iff.mpr h.digits]

theorem number_numeral {text : List UInt8} (h : Numeral text) : number text = value text := by
  obtain ⟨c, rest, rfl⟩ := List.exists_cons_of_ne_nil h.nonempty
  have hc : isdigit c = true := h.digits c (List.mem_cons_self ..)
  rw [number, List.dropWhile_cons_of_neg (not_isspace_of_isdigit hc)]
  split
  · rename_i heq
    cases heq
    exact absurd hc (by decide)
  · rename_i heq
    cases heq
    exact absurd hc (by decide)
  · rw [leading_numeral h]

/-- What `atoi` leaves in a `uint16_t`. -/
theorem toNat_atoi_low (text : List UInt8) :
    (((atoi long text).setWidth 16).toNat : Int) = strtol long text % 65536 := by
  rw [BitVec.toNat_setWidth, atoi, BitVec.toNat_ofInt]
  have h := Int.emod_nonneg (strtol long text) (b := (2 ^ 32 : Nat)) (by norm_num)
  rw [Int.natCast_emod, Int.toNat_of_nonneg h]
  norm_num

theorem strtol_of_small {text : List UInt8} (h : 0 ≤ number text) (hlt : number text < 65536) :
    strtol long text = number text := by
  rcases long.bound_cases with hb | hb <;> rw [strtol, hb, if_neg (by omega), if_neg (by omega)]

/-- The ends of the range are all zeros and all ones below. -/
theorem strtol_low_iff (text : List UInt8) {r : Int} (hr : r = 0 ∨ r = 4) :
    strtol long text % 65536 = r ↔
      (number text < -long.bound ∧ r = 0) ∨
      (-long.bound ≤ number text ∧ number text < long.bound ∧ number text % 65536 = r) := by
  rw [strtol]
  split
  · rcases long.bound_cases with hb | hb <;> omega
  · split
    · rcases long.bound_cases with hb | hb <;> omega
    · omega

end Strtol
