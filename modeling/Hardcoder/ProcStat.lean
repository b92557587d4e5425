import Hardcoder.ProcFileReader
import Hardcoder.Lib.Decimal

/-! The fields of /proc/.../stat: what Linux prints, and how `ProcFileReader::getValue` and the
readers of HardCoderUtil.java find them again. -/

namespace Hardcoder
open Strtol
set_option autoImplicit false

/-! ### java.lang -/

namespace Java

/-- `BufferedReader.readLine` -/
def readLine (contents : List UInt8) : Option (List UInt8) :=
  if contents = [] then none else some (contents.takeWhile fun c => c ≠ 10 ∧ c ≠ 13)

/-- `string.split(" ")`: empty strings at the end are left out. -/
def split (string : List UInt8) : List (List UInt8) :=
  if 32 ∉ string then [string] else ((string.splitOn 32).reverse.dropWhile (· = [])).reverse

/-- `Character.digit` of an ASCII character -/
def digit (c : UInt8) : Option Nat :=
  if 48 ≤ c ∧ c ≤ 57 then some (c.toNat - 48)
  else if 97 ≤ c ∧ c ≤ 122 then some (c.toNat - 87)
  else if 65 ≤ c ∧ c ≤ 90 then some (c.toNat - 55)
  else none

/-- The value of a string of digits; `none` stands for a `NumberFormatException`. -/
def digits (radix : Nat) (string : List UInt8) : Option Nat :=
  if string = [] then none
  else
    string.foldlM (fun n c =>
      (digit c).bind fun d => if d < radix then some (radix * n + d) else none) 0

/-- The sign of a number, and what follows it. -/
def sign : List UInt8 → Int × List UInt8
  | 45 :: string => (-1, string)
  | 43 :: string => (1, string)
  | string => (1, string)

/-- `Long.parseLong` -/
def parseLong (string : List UInt8) : Option Int :=
  (digits 10 (sign string).2).bind fun n =>
    let v := (sign string).1 * n
    if -2 ^ 63 ≤ v ∧ v < 2 ^ 63 then some v else none

/-- The radix that the start of a string names, and what follows it. -/
def radix : List UInt8 → Nat × List UInt8
  | 48 :: 120 :: string => (16, string)
  | 48 :: 88 :: string => (16, string)
  | 35 :: string => (16, string)
  | 48 :: c :: string => (8, c :: string)
  | string => (10, string)

/-- `Integer.decode` -/
def decode (string : List UInt8) : Option Int :=
  let (base, rest) := radix (sign string).2
  (digits base rest).bind fun n =>
    let v := (sign string).1 * n
    if -2 ^ 31 ≤ v ∧ v < 2 ^ 31 then some v else none

end Java

namespace HardCoderUtil
open Java

def getInt (string : List UInt8) (dflt : Int) : Int :=
  if string = [] then dflt else (decode string).getD dflt

/-- `stat` is the contents of the file if it can be read; an exception gives `null`. -/
def getMyProcCpuTime (stat : Option (List UInt8)) : Option (Int × Int) := do
  let line ← readLine (← stat)
  let arr := split line
  let utime ← parseLong (← arr[13]?)
  let stime ← parseLong (← arr[14]?)
  return (utime, stime)

def ERROR_CODE_FAILED : Int := -1

def getThreadCoreId (stat : Option (List UInt8)) : Int :=
  ((do
    let line ← readLine (← stat)
    let arr := split line
    return getInt (← arr[38]?) 0) : Option Int).getD ERROR_CODE_FAILED

end HardCoderUtil

/-! ### What Linux prints -/

/-- The name of a task; a line feed in it is printed as an escape. -/
structure Comm where
  bytes : List UInt8
  plain : ∀ c ∈ bytes, c ≠ 0 ∧ c ≠ 10

/-- `fields` are the numbers from the fourth field on, of 32 bits with or without a sign. -/
structure Stat where
  pid : Nat
  comm : Comm
  state : UInt8
  fields : List Int
  state_upper : (65 ≤ state ∧ state ≤ 90) ∨ (97 ≤ state ∧ state ≤ 122)
  fields_range : ∀ v ∈ fields, -2 ^ 31 ≤ v ∧ v < 2 ^ 32

namespace Stat

def words (s : Stat) : List (List UInt8) :=
  decimal s.pid :: (40 :: (s.comm.bytes ++ [41])) :: [s.state] :: s.fields.map printed

/-- `pid (comm) state f3 f4 ...` -/
def text (s : Stat) : List UInt8 := [32].intercalate s.words ++ [10]

/-- The fields behind `state`, counted as in the line. -/
def fieldAt (s : Stat) (k : Nat) : Option Int := if k < 3 then none else s.fields[k - 3]?

/-- Both readers find every field they look for. -/
structure Extracted (long : CLong) (s : Stat) : Prop where
  getValue : ∀ (r : ProcFileReader) line, r.line = some line → s.text ++ [0] <+: line →
    ∀ k v, s.fieldAt k = some v → r.getValue long k = some v
  getMyProcCpuTime : ∀ utime stime, s.fieldAt 13 = some utime → s.fieldAt 14 = some stime →
    HardCoderUtil.getMyProcCpuTime (some s.text) = some (utime, stime)
  getThreadCoreId : ∀ processor, s.fieldAt 38 = some processor →
    HardCoderUtil.getThreadCoreId (some s.text) = processor

end Stat

/-! ### Words of a line -/

namespace ProcFileReader

/-- A byte of a word. -/
def inWord (c : UInt8) : Bool := c ≠ 0 && c ≠ 32

theorem scan_word {index spaceCount : Nat} (hne : spaceCount ≠ index) {word : List UInt8}
    (hword : ∀ c ∈ word, inWord c = true) (rest : List UInt8) :
    scan index spaceCount (word ++ rest) = scan index spaceCount rest := by
  induction word with
  | nil => rfl
  | cons c word ih =>
    have hc := hword c List.mem_cons_self
    simp only [inWord, ne_eq, Bool.and_eq_true, decide_eq_true_eq] at hc
    rw [List.cons_append, scan, if_neg hc.1, if_neg hc.2, if_neg hne]
    exact ih fun c hc => hword c (List.mem_cons_of_mem _ hc)

theorem scan_space (index spaceCount : Nat) (rest : List UInt8) :
    scan index spaceCount (32 :: rest) =
      if spaceCount + 1 = index then .found (32 :: rest) else scan index (spaceCount + 1) rest := by
  rw [scan, if_neg (by decide), if_pos rfl]

/-- Each word begins with the space in front of it. -/
theorem scan_words {index spaceCount j : Nat} {words : List (List UInt8)}
    (hwords : ∀ w ∈ words, ∀ c ∈ w, inWord c = true) {word : List UInt8} (hj : words[j]? = some word)
    (hindex : spaceCount + 1 + j = index) (rest : List UInt8) :
    scan index spaceCount (words.flatMap (32 :: ·) ++ rest) =
      .found (32 :: (word ++ ((words.drop (j + 1)).flatMap (32 :: ·) ++ rest))) := by
  induction words generalizing spaceCount j with
  | nil => exact nomatch hj
  | cons w words ih =>
    rw [List.flatMap_cons, List.cons_append, List.cons_append, scan_space, List.append_assoc]
    cases j with
    | zero =>
      obtain rfl := Option.some.inj hj
      rw [if_pos hindex]
      rfl
    | succ j =>
      have hne : spaceCount + 1 ≠ index := by omega
      rw [if_neg hne, scan_word hne (hwords w List.mem_cons_self)]
      exact ih (fun w hw => hwords w (List.mem_cons_of_mem _ hw)) hj (by omega)

/-- A text with so many spaces has the field. -/
theorem scan_found {index spaceCount : Nat} {text : List UInt8} (hnull : (0 : UInt8) ∉ text)
    (hlt : spaceCount < index) (hcount : index ≤ spaceCount + text.count 32) :
    ∃ ptr, scan index spaceCount text = .found ptr := by
  induction text generalizing spaceCount with
  | nil =>
    rw [List.count_nil] at hcount
    omega
  | cons c text ih =>
    have hrest : (0 : UInt8) ∉ text := fun h => hnull (List.mem_cons_of_mem _ h)
    by_cases hspace : c = 32
    · subst hspace
      rw [scan_space]
      split
      · exact ⟨_, rfl⟩
      · rename_i hne
        rw [List.count_cons_self] at hcount
        exact ih hrest (by omega) (by omega)
    · rw [List.count_cons_of_ne hspace] at hcount
      have hc : c ≠ 0 := fun h => hnull (h ▸ List.mem_cons_self)
      rw [scan, if_neg hc, if_neg hspace, if_neg (Nat.ne_of_lt hlt)]
      exact ih hrest hlt hcount

end ProcFileReader

namespace Stat
open ProcFileReader Java HardCoderUtil
variable (long : CLong) (s : Stat)

/-! ### The line -/

theorem intercalate_eq (w : List UInt8) (words : List (List UInt8)) :
    [32].intercalate (w :: words) = w ++ words.flatMap (32 :: ·) := by
  induction words generalizing w with
  | nil => rw [List.intercalate_singleton, List.flatMap_nil, List.append_nil]
  | cons w' words ih =>
    rw [List.intercalate_cons_cons, ih, List.flatMap_cons, List.append_assoc]
    rfl

theorem text_eq : s.text = decimal s.pid ++ (s.words.tail.flatMap (32 :: ·) ++ [10]) := by
  rw [text, words, intercalate_eq, List.append_assoc]
  rfl

/-- Letters, digits and signs. -/
def isPrinted (c : UInt8) : Bool := 33 ≤ c && c ≤ 122

theorem isPrinted_of_isdigit {c : UInt8} (h : isdigit c = true) : isPrinted c = true := by
  simp only [isdigit, isPrinted, Bool.and_eq_true, decide_eq_true_eq, UInt8.le_iff_toNat_le] at h ⊢
  have h48 : (48 : UInt8).toNat = 48 := rfl
  have h57 : (57 : UInt8).toNat = 57 := rfl
  have h33 : (33 : UInt8).toNat = 33 := rfl
  have h122 : (122 : UInt8).toNat = 122 := rfl
  omega

theorem isPrinted_decimal (n : Nat) : ∀ c ∈ decimal n, isPrinted c = true :=
  fun c hc => isPrinted_of_isdigit ((numeral_decimal n).digits c hc)

theorem isPrinted_printed (v : Int) : ∀ c ∈ printed v, isPrinted c = true := by
  intro c hc
  unfold printed at hc
  split at hc
  · rcases List.mem_cons.mp hc with rfl | hc
    · decide
    · exact isPrinted_decimal _ c hc
  · exact isPrinted_decimal _ c hc

theorem isPrinted_state : isPrinted s.state = true := by
  have hstate := s.state_upper
  simp only [isPrinted, Bool.and_eq_true, decide_eq_true_eq, UInt8.le_iff_toNat_le] at hstate ⊢
  have h65 : (65 : UInt8).toNat = 65 := rfl
  have h90 : (90 : UInt8).toNat = 90 := rfl
  have h97 : (97 : UInt8).toNat = 97 := rfl
  have h33 : (33 : UInt8).toNat = 33 := rfl
  have h122 : (122 : UInt8).toNat = 122 := rfl
  omega

theorem ne_of_isPrinted {c : UInt8} (h : isPrinted c = true) : c ≠ 0 ∧ c ≠ 32 ∧ c ≠ 10 ∧ c ≠ 13 := by
  refine ⟨?_, ?_, ?_, ?_⟩ <;> rintro rfl <;> exact absurd h (by decide)

theorem words_cases {w : List UInt8} (hw : w ∈ s.words) :
    w = decimal s.pid ∨ w = 40 :: (s.comm.bytes ++ [41]) ∨ w = [s.state] ∨
      ∃ v ∈ s.fields, printed v = w := by
  simpa [words] using hw

/-- Every word but the name is made of letters, digits and signs. -/
theorem mem_words {w : List UInt8} (hw : w ∈ s.words) {c : UInt8} (hc : c ∈ w) :
    isPrinted c = true ∨ c ∈ s.comm.bytes := by
  rcases s.words_cases hw with rfl | rfl | rfl | ⟨v, -, rfl⟩
  · exact .inl (isPrinted_decimal _ c hc)
  · rcases List.mem_cons.mp hc with rfl | hc
    · exact .inl (by decide)
    rcases List.mem_append.mp hc with hc | hc
    · exact .inr hc
    · rw [List.mem_singleton.mp hc]
      exact .inl (by decide)
  · rw [List.mem_singleton.mp hc]
    exact .inl s.isPrinted_state
  · exact .inl (isPrinted_printed v c hc)

theorem words_field {k : Nat} {v : Int} (h : s.fieldAt k = some v) :
    3 ≤ k ∧ s.words[k]? = some (printed v) := by
  unfold fieldAt at h
  split at h
  · cases h
  · rename_i hk
    have hle : 3 ≤ k := Nat.not_lt.mp hk
    obtain ⟨j, rfl⟩ := Nat.exists_eq_add_of_le hle
    rw [Nat.add_sub_cancel_left] at h
    refine ⟨hle, ?_⟩
    rw [Nat.add_comm]
    simp [words, h]

theorem mem_fields {k : Nat} {v : Int} (h : s.fieldAt k = some v) : v ∈ s.fields := by
  unfold fieldAt at h
  split at h
  · cases h
  · exact List.mem_of_getElem? h

/-! ### `getValue` -/

/-- In a line whose name has no space. -/
theorem fieldValue_of_plain (hspace : 32 ∉ s.comm.bytes) {k : Nat} {v : Int}
    (h : s.fieldAt k = some v) : fieldValue long k s.text = v ↔ v < 2 ^ 31 := by
  obtain ⟨hk, hword⟩ := s.words_field h
  have hrange : -2 ^ 31 ≤ v := (s.fields_range v (s.mem_fields h)).1
  have hinWord {w : List UInt8} (hw : w ∈ s.words) : ∀ c ∈ w, inWord c = true := by
    intro c hc
    rcases s.mem_words hw hc with hprinted | hcomm
    · obtain ⟨h0, h32, -, -⟩ := ne_of_isPrinted hprinted
      simp [inWord, h0, h32]
    · have h0 := (s.comm.plain c hcomm).1
      have h32 : c ≠ 32 := fun h => hspace (h ▸ hcomm)
      simp [inWord, h0, h32]
  obtain ⟨j, rfl⟩ : ∃ j, k = j + 1 := ⟨k - 1, by omega⟩
  have htail : s.words.tail[j]? = some (printed v) := by
    rw [List.getElem?_tail]
    exact hword
  have hne : (0 : Nat) ≠ j + 1 := by omega
  have hscan : field (j + 1) s.text = .found (32 :: (printed v ++
      ((s.words.tail.drop (j + 1)).flatMap (32 :: ·) ++ [10, 0]))) := by
    rw [field, text_eq, List.append_assoc, List.append_assoc,
      scan_word hne (hinWord List.mem_cons_self)]
    exact scan_words (fun w hw => hinWord (List.mem_of_mem_tail hw)) htail (by omega) _
  have hnumber : number (32 :: (printed v ++
      ((s.words.tail.drop (j + 1)).flatMap (32 :: ·) ++ [10, 0]))) = v := by
    rw [number_space, number_printed]
    cases s.words.tail.drop (j + 1) with
    | nil => decide
    | cons w words => rfl
  have hatoi := toInt_atoi_iff long _ (hnumber.symm ▸ hrange)
  rw [hnumber] at hatoi
  rw [fieldValue, hscan]
  exact hatoi

/-! ### The Java readers -/

theorem digit_of_isdigit {c : UInt8} (h : isdigit c = true) : digit c = some (c.toNat - 48) := by
  simp only [isdigit, Bool.and_eq_true, decide_eq_true_eq] at h
  exact if_pos h

theorem digits_numeral {string : List UInt8} (h : Numeral string) :
    digits 10 string = some (value string) := by
  have hfold {string : List UInt8} (hdigits : ∀ c ∈ string, isdigit c = true) (n : Nat) :
      string.foldlM (fun n c =>
          (digit c).bind fun d => if d < 10 then some (10 * n + d) else none) n =
        some (string.foldl (fun n c => 10 * n + (c.toNat - 48)) n) := by
    induction string generalizing n with
    | nil => rfl
    | cons c string ih =>
      have hc := hdigits c List.mem_cons_self
      have hlt : c.toNat - 48 < 10 := by
        simp only [isdigit, Bool.and_eq_true, decide_eq_true_eq, UInt8.le_iff_toNat_le] at hc
        have h57 : (57 : UInt8).toNat = 57 := rfl
        omega
      rw [List.foldlM_cons, digit_of_isdigit hc, Option.bind_some, if_pos hlt, List.foldl_cons]
      exact ih (fun c hc => hdigits c (List.mem_cons_of_mem _ hc)) _
  rw [digits, if_neg h.nonempty]
  exact hfold h.digits 0

theorem digits_decimal (n : Nat) : digits 10 (decimal n) = some n := by
  rw [digits_numeral (numeral_decimal n), value_decimal]

theorem sign_printed (v : Int) :
    ∃ σ : Int, sign (printed v) = (σ, decimal v.natAbs) ∧ σ * v.natAbs = v := by
  by_cases hneg : v < 0
  · refine ⟨-1, ?_, by omega⟩
    rw [printed, if_pos hneg]
    rfl
  · refine ⟨1, ?_, by omega⟩
    rw [printed, if_neg hneg]
    have hdigits := (numeral_decimal v.natAbs).digits
    unfold sign
    split
    · rename_i heq
      exact absurd (hdigits 45 (heq ▸ List.mem_cons_self)) (by decide)
    · rename_i heq
      exact absurd (hdigits 43 (heq ▸ List.mem_cons_self)) (by decide)
    · rfl

theorem parseLong_printed {v : Int} (hlow : -2 ^ 31 ≤ v) (hhigh : v < 2 ^ 32) :
    parseLong (printed v) = some v := by
  obtain ⟨σ, hsign, hv⟩ := sign_printed v
  have hrange : -2 ^ 63 ≤ v ∧ v < 2 ^ 63 := by omega
  rw [parseLong, hsign, digits_decimal, Option.bind_some]
  dsimp only
  rw [hv, if_pos hrange]

theorem radix_decimal (n : Nat) : radix (decimal n) = (10, decimal n) := by
  by_cases hn : n = 0
  · subst hn
    rfl
  · obtain ⟨c, cs, hcs, hc⟩ := head_decimal hn
    have hdigit := (numeral_decimal n).digits c (hcs ▸ List.mem_cons_self)
    rw [hcs]
    unfold radix
    split
    · rename_i heq
      exact absurd (List.cons.inj heq).1 hc
    · rename_i heq
      exact absurd (List.cons.inj heq).1 hc
    · rename_i heq
      rw [(List.cons.inj heq).1] at hdigit
      exact absurd hdigit (by decide)
    · rename_i heq
      exact absurd (List.cons.inj heq).1 hc
    · rfl

theorem getInt_printed {v : Int} (hlow : -2 ^ 31 ≤ v) (hhigh : v < 2 ^ 31) :
    getInt (printed v) 0 = v := by
  obtain ⟨σ, hsign, hv⟩ := sign_printed v
  have hdecode : decode (printed v) = some v := by
    simp only [decode, hsign, radix_decimal, digits_decimal, Option.bind_some, hv]
    exact if_pos ⟨hlow, hhigh⟩
  rw [getInt, if_neg (printed_ne_nil v), hdecode, Option.getD_some]

theorem ne_nil_of_mem_words {w : List UInt8} (hw : w ∈ s.words) : w ≠ [] := by
  rcases s.words_cases hw with rfl | rfl | rfl | ⟨v, -, rfl⟩
  · exact (numeral_decimal _).nonempty
  · exact List.cons_ne_nil _ _
  · exact List.cons_ne_nil _ _
  · exact printed_ne_nil v

theorem mem_intercalate {words : List (List UInt8)} {c : UInt8} (hc : c ∈ [32].intercalate words) :
    c = 32 ∨ ∃ w ∈ words, c ∈ w := by
  cases words with
  | nil => exact absurd hc List.not_mem_nil
  | cons w words =>
    rw [intercalate_eq, List.mem_append] at hc
    rcases hc with hc | hc
    · exact .inr ⟨w, List.mem_cons_self, hc⟩
    · obtain ⟨w', hw', hc⟩ := List.mem_flatMap.mp hc
      rcases List.mem_cons.mp hc with rfl | hc
      · exact .inl rfl
      · exact .inr ⟨w', List.mem_cons_of_mem _ hw', hc⟩

/-- `split` undoes a join of words. -/
theorem split_intercalate {words : List (List UInt8)} (hne : 2 ≤ words.length)
    (hspace : ∀ w ∈ words, 32 ∉ w) (hempty : ∀ w ∈ words, w ≠ []) :
    split ([32].intercalate words) = words := by
  have hnonempty : words ≠ [] := List.ne_nil_of_length_pos (by omega)
  have hmem : 32 ∈ [32].intercalate words := by
    match words, hne with
    | w :: w' :: words, _ =>
      rw [List.intercalate_cons_cons]
      exact List.mem_append_left _ (List.mem_append_right w List.mem_cons_self)
  have hlast : words.reverse.dropWhile (· = []) = words.reverse := by
    rw [List.dropWhile_eq_self_iff]
    intro hlen hnil
    exact hempty _ (List.mem_reverse.mp (List.getElem_mem hlen)) (of_decide_eq_true hnil)
  rw [split, if_neg (not_not.mpr hmem), List.splitOn_intercalate 32 hspace hnonempty, hlast,
    List.reverse_reverse]

/-- In a line whose name has neither a space nor a carriage return. -/
theorem split_readLine (hspace : 32 ∉ s.comm.bytes) (hreturn : 13 ∉ s.comm.bytes) :
    readLine s.text = some ([32].intercalate s.words) ∧ split ([32].intercalate s.words) = s.words := by
  have hwithin {w : List UInt8} (hw : w ∈ s.words) {c : UInt8} (hc : c ∈ w) :
      c ≠ 32 ∧ c ≠ 10 ∧ c ≠ 13 := by
    rcases s.mem_words hw hc with hprinted | hcomm
    · exact (ne_of_isPrinted hprinted).2
    · exact ⟨fun h => hspace (h ▸ hcomm), (s.comm.plain c hcomm).2, fun h => hreturn (h ▸ hcomm)⟩
  constructor
  · have hline : ∀ c ∈ [32].intercalate s.words, decide (c ≠ 10 ∧ c ≠ 13) = true := by
      intro c hc
      rcases mem_intercalate hc with rfl | ⟨w, hw, hc⟩
      · decide
      · exact decide_eq_true (hwithin hw hc).2
    have hne : s.text ≠ [] := List.append_ne_nil_of_right_ne_nil _ (List.cons_ne_nil _ _)
    rw [readLine, if_neg hne, text, List.takeWhile_append_of_pos hline,
      List.takeWhile_cons_of_neg (by decide), List.append_nil]
  · exact split_intercalate (by simp [words]) (fun w hw h => (hwithin hw h).1 rfl)
      fun w hw => s.ne_nil_of_mem_words hw

/-- A name without a space, and without the carriage return that ends a line for Java. -/
def Simple (comm : Comm) : Prop := 32 ∉ comm.bytes ∧ 13 ∉ comm.bytes

variable {s} in
theorem arr_of_simple (h : Simple s.comm) {k : Nat} {v : Int} (hv : s.fieldAt k = some v) :
    (split ([32].intercalate s.words))[k]? = some (printed v) := by
  rw [(s.split_readLine h.1 h.2).2]
  exact (s.words_field hv).2

variable {s} in
theorem getMyProcCpuTime_of_simple (h : Simple s.comm) {utime stime : Int}
    (hutime : s.fieldAt 13 = some utime) (hstime : s.fieldAt 14 = some stime) :
    getMyProcCpuTime (some s.text) = some (utime, stime) := by
  have hrange {k : Nat} {v : Int} (hv : s.fieldAt k = some v) : parseLong (printed v) = some v := by
    have hrange := s.fields_range v (s.mem_fields hv)
    exact parseLong_printed hrange.1 hrange.2
  simp [getMyProcCpuTime, (s.split_readLine h.1 h.2).1, arr_of_simple h hutime, arr_of_simple h hstime,
    hrange hutime, hrange hstime]

variable {s} in
theorem getThreadCoreId_of_simple (h : Simple s.comm) {processor : Int}
    (hprocessor : s.fieldAt 38 = some processor) (hlow : -2 ^ 31 ≤ processor)
    (hhigh : processor < 2 ^ 31) : getThreadCoreId (some s.text) = processor := by
  simp [getThreadCoreId, (s.split_readLine h.1 h.2).1, arr_of_simple h hprocessor,
    getInt_printed hlow hhigh]

variable {s} in
/-- Simple names leave only the range of `int`. -/
theorem extracted_iff_of_simple (h : Simple s.comm) :
    Extracted long s ↔ ∀ v ∈ s.fields, v < 2 ^ 31 := by
  constructor
  · intro hextracted v hv
    obtain ⟨j, hj⟩ := List.getElem?_of_mem hv
    have hfield : s.fieldAt (j + 3) = some v := by
      rw [fieldAt, if_neg (by omega), Nat.add_sub_cancel]
      exact hj
    have hvalue := hextracted.getValue ⟨none, 0, some (s.text ++ [0])⟩ _ rfl List.prefix_rfl _ v hfield
    rw [getValue_of_text long rfl List.prefix_rfl] at hvalue
    exact (s.fieldValue_of_plain long h.1 hfield).mp (Option.some.inj hvalue)
  · intro hsmall
    refine ⟨fun r line hline hprefix k v hv => ?_, fun utime stime => getMyProcCpuTime_of_simple h,
      fun processor hprocessor => ?_⟩
    · rw [getValue_of_text long hline hprefix,
        (s.fieldValue_of_plain long h.1 hv).mpr (hsmall v (s.mem_fields hv))]
    · have hrange := s.fields_range processor (s.mem_fields hprocessor)
      exact getThreadCoreId_of_simple h hprocessor hrange.1 (hsmall processor (s.mem_fields hprocessor))

/-! ### Names that are not simple -/

/-- A line with these fields. -/
def withFields (comm : Comm) (fields : List Int) (h : ∀ v ∈ fields, -2 ^ 31 ≤ v ∧ v < 2 ^ 32) : Stat :=
  ⟨1, comm, 83, fields, by decide, h⟩

/-- The line up to `state`. -/
def front (comm : Comm) : List UInt8 :=
  decimal 1 ++ (32 :: 40 :: (comm.bytes ++ [41, 32, 83]))

theorem count_front {comm : Comm} (hspace : 32 ∈ comm.bytes) : 3 ≤ (front comm).count 32 := by
  have hone := List.one_le_count_iff.mpr hspace
  have hpid : (decimal 1).count 32 = 0 := by decide
  have hname : (32 :: 40 :: (comm.bytes ++ [41, 32, 83])).count 32 = comm.bytes.count 32 + 2 := by
    rw [List.count_cons_self, List.count_cons_of_ne (by decide), List.count_append]
    rfl
  rw [front, List.count_append, hpid, hname]
  omega

theorem null_not_mem_front (comm : Comm) : (0 : UInt8) ∉ front comm := by
  intro hmem
  have hcases : (0 : UInt8) ∈ decimal 1 ∨ (0 : UInt8) ∈ comm.bytes := by
    simpa [front] using hmem
  rcases hcases with hmem | hmem
  · exact absurd hmem (by decide)
  · exact (comm.plain 0 hmem).1 rfl

theorem text_withFields (comm : Comm) (fields : List Int)
    (h : ∀ v ∈ fields, -2 ^ 31 ≤ v ∧ v < 2 ^ 32) :
    (withFields comm fields h).text =
      front comm ++ ((fields.map printed).flatMap (32 :: ·) ++ [10]) := by
  rw [text_eq]
  simp [withFields, words, front]

/-- With a space in the name the fourth word is found before the fields. -/
theorem fieldValue_of_space {comm : Comm} (hspace : 32 ∈ comm.bytes) :
    ∃ x, ∀ fields h, fieldValue long 3 (withFields comm fields h).text = x := by
  have hcount : 3 ≤ 0 + (front comm).count 32 := by
    rw [Nat.zero_add]
    exact count_front hspace
  obtain ⟨ptr, hptr⟩ := scan_found (null_not_mem_front comm) (by decide : 0 < 3) hcount
  -- the letter of the state is behind the place that was found, and no number goes on over it
  have hstate : (83 : UInt8) ∈ ptr := by
    obtain ⟨hne, rest, hrest⟩ := suffix_of_found hptr
    have hfront : front comm = (decimal 1 ++ (32 :: 40 :: (comm.bytes ++ [41, 32]))) ++ [83] := by
      simp [front]
    have hlast : (rest ++ ptr).getLast? = some 83 := by
      rw [hrest, hfront, List.getLast?_concat]
    rw [List.getLast?_append, Option.or_eq_some_iff, List.getLast?_eq_none_iff] at hlast
    exact List.mem_of_getLast? (hlast.resolve_right fun h => hne h.1)
  refine ⟨(atoi long ptr).toInt, fun fields h => ?_⟩
  have hoverrun : scan 3 0 (front comm) ≠ .overrun := by
    rw [hptr]
    exact Scan.noConfusion
  rw [fieldValue, field, text_withFields, List.append_assoc, scan_append _ hoverrun, hptr]
  dsimp only
  rw [atoi, strtol, number_append (by decide : stops 83 = true) hstate]
  rfl

/-- With a carriage return in the name the line ends there for Java. -/
theorem getMyProcCpuTime_of_return {comm : Comm} (hspace : 32 ∉ comm.bytes) (hreturn : 13 ∈ comm.bytes)
    (fields : List Int) (h : ∀ v ∈ fields, -2 ^ 31 ≤ v ∧ v < 2 ^ 32) :
    getMyProcCpuTime (some (withFields comm fields h).text) = none := by
  let inLine : UInt8 → Bool := fun c => c ≠ 10 ∧ c ≠ 13
  have hshort : (comm.bytes.takeWhile inLine).length ≠ comm.bytes.length := by
    intro hlen
    have hall := (List.takeWhile_prefix inLine).eq_of_length hlen
    exact absurd (List.takeWhile_eq_self_iff.mp hall 13 hreturn) (by decide)
  have hpid : ∀ c ∈ decimal 1, inLine c = true :=
    fun c hc => decide_eq_true (ne_of_isPrinted (isPrinted_decimal 1 c hc)).2.2
  have hline : readLine (withFields comm fields h).text =
      some ([32].intercalate [decimal 1, 40 :: comm.bytes.takeWhile inLine]) := by
    have hne : (withFields comm fields h).text ≠ [] :=
      List.append_ne_nil_of_right_ne_nil _ (List.cons_ne_nil _ _)
    rw [readLine, if_neg hne, text_withFields, front, List.append_assoc,
      List.takeWhile_append_of_pos hpid, List.cons_append, List.takeWhile_cons_of_pos (by decide),
      List.cons_append, List.takeWhile_cons_of_pos (by decide), List.append_assoc,
      List.takeWhile_append, if_neg hshort, List.intercalate_cons_cons, List.intercalate_singleton]
    rfl
  have hsplit : split ([32].intercalate [decimal 1, 40 :: comm.bytes.takeWhile inLine]) =
      [decimal 1, 40 :: comm.bytes.takeWhile inLine] := by
    have hpair {w : List UInt8} (hw : w ∈ [decimal 1, 40 :: comm.bytes.takeWhile inLine]) :
        w = decimal 1 ∨ w = 40 :: comm.bytes.takeWhile inLine := by simpa using hw
    refine split_intercalate (Nat.le_refl 2) (fun w hw hmem => ?_) fun w hw => ?_
    · rcases hpair hw with rfl | rfl
      · exact absurd hmem (by decide)
      · have hmem := (List.mem_cons.mp hmem).resolve_left (by decide)
        exact hspace (List.takeWhile_subset _ hmem)
    · rcases hpair hw with rfl | rfl
      · exact List.cons_ne_nil _ _
      · exact List.cons_ne_nil _ _
  simp only [getMyProcCpuTime, hline, Option.bind_eq_bind, Option.bind_some, hsplit]
  rfl

/-- Lines whose fields are in the range of `int` are read back whatever they are for just the
simple names, and with such a name no other lines are. -/
theorem extracted_iff (comm : Comm) :
    ((∀ s : Stat, s.comm = comm → (∀ v ∈ s.fields, v < 2 ^ 31) → Extracted long s) ↔ Simple comm) ∧
      (Simple comm → ∀ s : Stat, s.comm = comm → (Extracted long s ↔ ∀ v ∈ s.fields, v < 2 ^ 31)) := by
  refine ⟨⟨fun hall => ?_, ?_⟩, ?_⟩
  · have hspace : 32 ∉ comm.bytes := by
      intro hmem
      obtain ⟨x, hx⟩ := fieldValue_of_space long hmem
      -- the fourth word is the same for two lines that differ there
      have hread {v : Int} (h : ∀ v' ∈ [v], -2 ^ 31 ≤ v' ∧ v' < 2 ^ 32) (hsmall : v < 2 ^ 31) :
          x = v := by
        have hextracted := hall (withFields comm [v] h) rfl fun v' hv' => by
          rwa [List.mem_singleton.mp hv']
        have hvalue := hextracted.getValue ⟨none, 0, some _⟩ _ rfl List.prefix_rfl 3 v rfl
        rw [getValue_of_text long rfl List.prefix_rfl, hx] at hvalue
        exact Option.some.inj hvalue
      have hzero : x = 0 := hread (by decide) (by decide)
      have hone : x = 1 := hread (by decide) (by decide)
      omega
    refine ⟨hspace, fun hmem => ?_⟩
    have hrange : ∀ v ∈ List.replicate 12 (0 : Int), -2 ^ 31 ≤ v ∧ v < 2 ^ 32 := by decide
    have hextracted := hall (withFields comm _ hrange) rfl fun v hv => by
      rw [List.eq_of_mem_replicate hv]
      decide
    have htime := hextracted.getMyProcCpuTime 0 0 rfl rfl
    rw [getMyProcCpuTime_of_return hspace hmem] at htime
    cases htime
  · rintro hsimple s rfl hsmall
    exact (extracted_iff_of_simple long hsimple).mpr hsmall
  · rintro hsimple s rfl
    exact extracted_iff_of_simple long hsimple

/-- The process of a thread called `a b`. -/
theorem not_extracted : ¬ ∀ s, Extracted .lp64 s := by
  intro hall
  have hextracted := hall (withFields ⟨[97, 32, 98], by simp⟩ [1] (by decide))
  have hvalue := hextracted.getValue ⟨none, 0, some _⟩ _ rfl List.prefix_rfl 3 1 rfl
  exact absurd hvalue (by decide)

end Stat

end Hardcoder
