import Hardcoder.Amc
import Hardcoder.Lib.Access
import Mathlib.Algebra.GroupWithZero.Nat
import Mathlib.Data.List.TakeWhile

/-! Strings in the texts of cJSON.c: `parse_string` and the characters `print_string_ptr` writes. -/

namespace Hardcoder.cJSON
set_option autoImplicit false

/-- The characters that a block holds in front of its first zero byte. -/
def cString (block : List UInt8) : StdString := block.takeWhile (· ≠ 0)

/-- The zero that ends a block. -/
theorem cString_append_zero (s : List UInt8) : cString (s ++ [0]) = cString s := by
  rw [cString, List.takeWhile_append]
  split
  · rename_i hlen
    have hself := (List.takeWhile_prefix (p := (· ≠ 0)) (l := s)).eq_of_length hlen
    rw [List.takeWhile_cons_of_neg (by decide), List.append_nil, cString, hself]
  · rfl

/-! ### Reading -/

def byteAt (text : List UInt8) (i : Nat) : Access UInt8 :=
  match text[i]? with
  | none => .outside
  | some c => .ok c

def hexDigit (c : UInt8) : Option Nat :=
  if 48 ≤ c ∧ c ≤ 57 then some (c.toNat - 48)
  else if 65 ≤ c ∧ c ≤ 70 then some (10 + c.toNat - 65)
  else if 97 ≤ c ∧ c ≤ 102 then some (10 + c.toNat - 97)
  else none

def hexDigits : Nat → Nat → List UInt8 → Access Nat
  | 0, h, _ => .ok h
  | _ + 1, _, [] => .outside
  | k + 1, h, c :: input =>
    match hexDigit c with
    | none => .ok 0
    | some d => hexDigits k (16 * h + d) input

/-- Zero is also what it returns for a byte that is no digit. -/
def parse_hex4 (input : List UInt8) : Access Nat := hexDigits 4 0 input

/-- The last `k` bytes, and the first one with its mark. -/
def utf8Bytes (mark : Nat) : Nat → Nat → List UInt8
  | 0, codepoint => [UInt8.ofNat ((codepoint ||| mark) &&& 0xFF)]
  | k + 1, codepoint =>
    utf8Bytes mark k (codepoint >>> 6) ++ [UInt8.ofNat ((codepoint ||| 0x80) &&& 0xBF)]

def encode_utf8 (codepoint : Nat) : Access (List UInt8) :=
  if codepoint < 0x80 then .ok [UInt8.ofNat (codepoint &&& 0x7F)]
  else if codepoint < 0x800 then .ok (utf8Bytes 0xC0 1 codepoint)
  else if codepoint < 0x10000 then .ok (utf8Bytes 0xE0 2 codepoint)
  else if codepoint ≤ 0x10FFFF then .ok (utf8Bytes 0xF0 3 codepoint)
  else .failed

/-- The bytes for the escape sequence, of which `left` bytes are in front of the closing
quote, and the length of the sequence. -/
def utf16_literal_to_utf8 (input : List UInt8) (left : Nat) : Access (List UInt8 × Nat) := do
  if left < 6 then .failed
  else
    let first_code ← parse_hex4 (input.drop 2)
    if 0xDC00 ≤ first_code ∧ first_code ≤ 0xDFFF then .failed
    else if 0xD800 ≤ first_code ∧ first_code ≤ 0xDBFF then
      if left - 6 < 6 then .failed
      else
        let c ← byteAt input 6
        let d ← byteAt input 7
        if c ≠ 92 ∨ d ≠ 117 then .failed
        else
          let second_code ← parse_hex4 (input.drop 8)
          if second_code < 0xDC00 ∨ 0xDFFF < second_code then .failed
          else
            let bytes ← encode_utf8
              (0x10000 + ((first_code &&& 0x3FF) <<< 10 ||| second_code &&& 0x3FF))
            .ok (bytes, 12)
    else
      let bytes ← encode_utf8 first_code
      .ok (bytes, 6)

/-- How far the closing quote is, and how many escapes there are on the way. -/
def findEnd : List UInt8 → Option (Nat × Nat)
  | [] => none
  | c :: input =>
    if c = 34 then some (0, 0)
    else if c = 92 then
      match input with
      | [] => none
      | _ :: input => (findEnd input).map fun r => (r.1 + 2, r.2 + 1)
    else (findEnd input).map fun r => (r.1 + 1, r.2)

/-- The character of an escape that is not `\u`. -/
def escaped (c : UInt8) : Option UInt8 :=
  if c = 98 then some 8
  else if c = 102 then some 12
  else if c = 110 then some 10
  else if c = 114 then some 13
  else if c = 116 then some 9
  else if c = 34 ∨ c = 92 ∨ c = 47 then some c
  else none

/-- Bytes are appended in a block of this size. -/
def put (capacity : Nat) (output bytes : List UInt8) : Access (List UInt8) :=
  if output.length + bytes.length ≤ capacity then .ok (output ++ bytes) else .outside

/-- The loop over the string literal; `left` is `input_end - input_pointer`, which a last
escape can make negative. -/
def unescape (capacity : Nat) : Nat → Nat → List UInt8 → List UInt8 → Access (List UInt8)
  | 0, _, _, output => .ok output
  | _ + 1, 0, _, output => .ok output
  | _ + 1, _ + 1, [], _ => .outside
  | fuel + 1, left + 1, c :: input, output =>
    if c ≠ 92 then do
      let output ← put capacity output [c]
      unescape capacity fuel left input output
    else
      match input with
      | [] => .outside
      | e :: rest =>
        if e = 117 then do
          let literal ← utf16_literal_to_utf8 (c :: e :: rest) (left + 1)
          let output ← put capacity output literal.1
          unescape capacity fuel (left + 1 - literal.2) ((c :: e :: rest).drop literal.2) output
        else
          match escaped e with
          | none => .failed
          | some b => do
            let output ← put capacity output [b]
            unescape capacity fuel (left - 1) rest output

/-- The string, and how far behind it the text goes on. -/
def parse_string (text : List UInt8) : Access (StdString × Nat) :=
  match text with
  | [] => .outside
  | c :: input =>
    if c ≠ 34 then .failed
    else
      match findEnd input with
      | none => .failed
      | some (length, skipped_bytes) => do
        -- the opening quote is counted too, and there is room for the zero at the end
        let capacity := length + 1 - skipped_bytes + 1
        let output ← unescape capacity length length input []
        let output ← put capacity output [0]
        .ok (cString output, length + 2)

/-! ### Every access is inside -/

section Bounds

/-- `findEnd` from within an escape, whose second byte is passed over. -/
def findEndIn (escape : Bool) (input : List UInt8) : Option (Nat × Nat) :=
  match escape, input with
  | false, input => findEnd input
  | true, [] => none
  | true, _ :: input => (findEnd input).map fun r => (r.1 + 1, r.2)

variable {escape : Bool} {c : UInt8} {input output : List UInt8} {capacity fuel left k : Nat}

theorem findEnd_le (h : findEnd input = some (left, k)) : 2 * k ≤ left ∧ left < input.length := by
  fun_induction findEnd input generalizing left k with
  | case1 => cases h
  | case2 input =>
    cases h
    exact ⟨Nat.le_refl 0, Nat.succ_pos _⟩
  | case3 => cases h
  | case4 hquote e input ih =>
    obtain ⟨⟨n, m⟩, hr, heq⟩ := Option.map_eq_some_iff.mp h
    cases heq
    have hle := ih hr
    simp only [List.length_cons]
    omega
  | case5 c input hquote hslash ih =>
    obtain ⟨⟨n, m⟩, hr, heq⟩ := Option.map_eq_some_iff.mp h
    cases heq
    have hle := ih hr
    simp only [List.length_cons]
    omega

theorem findEndIn_le (h : findEndIn escape input = some (left, k)) : k ≤ left ∧ left < input.length := by
  unfold findEndIn at h
  split at h
  · have hle := findEnd_le h
    omega
  · cases h
  · obtain ⟨⟨n, m⟩, hr, heq⟩ := Option.map_eq_some_iff.mp h
    cases heq
    have hle := findEnd_le hr
    simp only [List.length_cons]
    omega

/-- One byte further: a backslash starts an escape unless it is in one. -/
theorem findEndIn_cons (h : findEndIn escape (c :: input) = some (left + 1, k)) :
    ∃ k', findEndIn (!escape && c == 92) input = some (left, k') ∧
      k = k' + (if !escape && c == 92 then 1 else 0) := by
  cases escape with
  | true =>
    obtain ⟨⟨n, m⟩, hr, heq⟩ := Option.map_eq_some_iff.mp h
    cases heq
    exact ⟨m, hr, rfl⟩
  | false =>
    rw [findEndIn, findEnd.eq_def] at h
    dsimp only at h
    split at h
    · cases h
    split at h
    · rename_i hslash
      subst hslash
      cases input with
      | nil => cases h
      | cons e input =>
        obtain ⟨⟨n, m⟩, hr, heq⟩ := Option.map_eq_some_iff.mp h
        cases heq
        exact ⟨m, by simp [findEndIn, hr], rfl⟩
    · rename_i hslash
      obtain ⟨⟨n, m⟩, hr, heq⟩ := Option.map_eq_some_iff.mp h
      cases heq
      have hc : (!false && c == 92) = false := by simpa using hslash
      rw [hc]
      exact ⟨m, hr, rfl⟩

/-- At most one escape starts in two bytes. -/
theorem findEndIn_two (h : findEndIn escape input = some (left + 2, k)) :
    ∃ escape' k', findEndIn escape' (input.drop 2) = some (left, k') ∧ k ≤ k' + 1 := by
  cases input with
  | nil => cases escape <;> cases h
  | cons c input =>
    obtain ⟨k₁, h₁, hk₁⟩ := findEndIn_cons h
    cases input with
    | nil => cases hb : (!escape && c == 92) <;> rw [hb] at h₁ <;> cases h₁
    | cons d input =>
      obtain ⟨k₂, h₂, hk₂⟩ := findEndIn_cons h₁
      refine ⟨_, k₂, h₂, ?_⟩
      cases hb : (!escape && c == 92) with
      | true =>
        rw [hb] at hk₁ hk₂
        simp at hk₁ hk₂
        omega
      | false =>
        rw [hb] at hk₁ hk₂
        simp only [Bool.false_eq_true, if_false] at hk₁
        split at hk₂ <;> omega

theorem findEndIn_drop {m : Nat} (h : findEndIn escape input = some (left + 2 * m, k)) :
    ∃ escape' k', findEndIn escape' (input.drop (2 * m)) = some (left, k') ∧ k ≤ k' + m := by
  induction m generalizing escape input k with
  | zero => exact ⟨escape, k, h, Nat.le_refl k⟩
  | succ m ih =>
    obtain ⟨escape₁, k₁, h₁, hk₁⟩ := findEndIn_two h
    obtain ⟨escape₂, k₂, h₂, hk₂⟩ := ih h₁
    refine ⟨escape₂, k₂, ?_, by omega⟩
    rw [List.drop_drop] at h₂
    rwa [Nat.mul_succ, Nat.add_comm]

/-- There is room for what is left, but for one byte of each escape, and for two bytes more. -/
def Room (capacity left : Nat) (input output : List UInt8) : Prop :=
  ∃ escape k, findEndIn escape input = some (left, k) ∧ output.length + left + 2 ≤ capacity + k

theorem put_ensures {bytes : List UInt8} (h : output.length + bytes.length ≤ capacity) :
    (put capacity output bytes).Ensures (· = output ++ bytes) := by
  rw [put, if_pos h]
  exact Access.ensures_ok.mpr rfl

theorem byteAt_ensures {i : Nat} (h : i < input.length) : (byteAt input i).Ensures fun _ => True := by
  rw [byteAt, List.getElem?_eq_getElem h]
  trivial

theorem hexDigit_lt {d : Nat} (h : hexDigit c = some d) : d < 16 := by
  have h57 : (57 : UInt8).toNat = 57 := rfl
  have h70 : (70 : UInt8).toNat = 70 := rfl
  have h102 : (102 : UInt8).toNat = 102 := rfl
  simp only [hexDigit, UInt8.le_iff_toNat_le] at h
  split at h
  · cases h
    omega
  split at h
  · cases h
    omega
  split at h
  · cases h
    omega
  · cases h

theorem hexDigits_ensures {k h : Nat} (hlen : k ≤ input.length) :
    (hexDigits k h input).Ensures (· < 16 ^ k * (h + 1)) := by
  induction k generalizing h input with
  | zero =>
    rw [hexDigits, Access.ensures_ok]
    omega
  | succ k ih =>
    cases input with
    | nil => exact absurd hlen (Nat.not_succ_le_zero k)
    | cons c input =>
      rw [hexDigits]
      cases hc : hexDigit c with
      | none => exact Access.ensures_ok.mpr (Nat.mul_pos (Nat.pow_pos (by decide)) (Nat.succ_pos h))
      | some d =>
        have hd := hexDigit_lt hc
        refine (ih (h := 16 * h + d) (Nat.le_of_succ_le_succ hlen)).imp fun n hn => ?_
        calc n < 16 ^ k * (16 * h + d + 1) := hn
          _ ≤ 16 ^ k * (16 * (h + 1)) := Nat.mul_le_mul_left _ (by omega)
          _ = 16 ^ (k + 1) * (h + 1) := by rw [Nat.pow_succ, Nat.mul_assoc]

theorem parse_hex4_ensures (h : 4 ≤ input.length) : (parse_hex4 input).Ensures (· < 0x10000) :=
  hexDigits_ensures h

theorem length_utf8Bytes (mark k codepoint : Nat) : (utf8Bytes mark k codepoint).length = k + 1 := by
  induction k generalizing codepoint with
  | zero => rfl
  | succ k ih => rw [utf8Bytes, List.length_append, ih, List.length_singleton]

theorem encode_utf8_ensures (codepoint : Nat) :
    (encode_utf8 codepoint).Ensures fun bytes =>
      bytes.length ≤ 4 ∧ (codepoint < 0x10000 → bytes.length ≤ 3) := by
  unfold encode_utf8
  split
  · rw [Access.ensures_ok, List.length_singleton]
    omega
  split
  · rw [Access.ensures_ok, length_utf8Bytes]
    omega
  split
  · rw [Access.ensures_ok, length_utf8Bytes]
    omega
  split
  · rw [Access.ensures_ok, length_utf8Bytes]
    omega
  · trivial

/-- An escape of six bytes gives three bytes at most, one of twelve gives four. -/
theorem utf16_ensures (hlen : left ≤ input.length) :
    (utf16_literal_to_utf8 input left).Ensures fun literal =>
      (literal.2 = 6 ∧ literal.1.length ≤ 3 ∨ literal.2 = 12 ∧ literal.1.length ≤ 4) ∧
        literal.2 ≤ left := by
  unfold utf16_literal_to_utf8
  split
  · trivial
  rename_i hsix
  refine (parse_hex4_ensures (by rw [List.length_drop]; omega)).bind fun first_code hfirst => ?_
  split
  · trivial
  split
  · split
    · trivial
    rename_i htwelve
    refine (byteAt_ensures (by omega)).bind fun c _ => ?_
    refine (byteAt_ensures (by omega)).bind fun d _ => ?_
    split
    · trivial
    refine (parse_hex4_ensures (by rw [List.length_drop]; omega)).bind fun second_code _ => ?_
    split
    · trivial
    refine (encode_utf8_ensures _).bind fun bytes hbytes => ?_
    exact Access.ensures_ok.mpr ⟨.inr ⟨rfl, hbytes.1⟩, by dsimp only; omega⟩
  · refine (encode_utf8_ensures _).bind fun bytes hbytes => ?_
    exact Access.ensures_ok.mpr ⟨.inl ⟨rfl, hbytes.2 hfirst⟩, by dsimp only; omega⟩

theorem unescape_zero (output : List UInt8) : unescape capacity fuel 0 input output = .ok output := by
  cases fuel <;> rfl

/-- The room after an escape sequence of `2 * m` bytes that gives up to `m` bytes. -/
theorem Room.drop {m : Nat} {bytes : List UInt8} (h : Room capacity left input output)
    (hm : 2 * m ≤ left) (hbytes : bytes.length ≤ m) :
    Room capacity (left - 2 * m) (input.drop (2 * m)) (output ++ bytes) := by
  obtain ⟨escape, k, hend, hroom⟩ := h
  obtain ⟨n, rfl⟩ := Nat.exists_eq_add_of_le' hm
  obtain ⟨escape', k', hend', hk⟩ := findEndIn_drop hend
  rw [Nat.add_sub_cancel]
  refine ⟨escape', k', hend', ?_⟩
  rw [List.length_append]
  omega

theorem Room.length_le (h : Room capacity left input output) : output.length + 2 ≤ capacity := by
  obtain ⟨escape, k, hend, hroom⟩ := h
  have hle := findEndIn_le hend
  omega

theorem Room.lt_length (h : Room capacity left input output) : left < input.length := by
  obtain ⟨escape, k, hend, hroom⟩ := h
  exact (findEndIn_le hend).2

/-- The loop reads inside the text and writes inside the block, and leaves room for the zero. -/
theorem unescape_ensures (h : Room capacity left input output) (hfuel : left ≤ fuel) :
    (unescape capacity fuel left input output).Ensures fun output => output.length + 1 ≤ capacity := by
  induction fuel generalizing left input output with
  | zero =>
    have hle := h.length_le
    rw [unescape, Access.ensures_ok]
    omega
  | succ fuel ih =>
    have hle := h.length_le
    have hlt := h.lt_length
    cases left with
    | zero =>
      rw [unescape, Access.ensures_ok]
      omega
    | succ left =>
      cases input with
      | nil => exact absurd hlt (Nat.not_lt_zero _)
      | cons c input =>
        rw [unescape.eq_def]
        dsimp only
        split
        · -- the byte starts no escape, wherever the quote was looked for
          rename_i hc
          obtain ⟨escape, k, hend, hroom⟩ := h
          obtain ⟨k₁, hend₁, hk⟩ := findEndIn_cons hend
          have hnone : (!escape && c == 92) = false := by simp [hc]
          rw [hnone] at hend₁ hk
          refine (put_ensures (by simp only [List.length_singleton]; omega)).bind fun out hout => ?_
          subst hout
          refine ih ⟨false, k₁, hend₁, ?_⟩ (Nat.le_of_succ_le_succ hfuel)
          simp only [List.length_append, List.length_singleton, Bool.false_eq_true, if_false] at hk ⊢
          omega
        cases input with
        | nil => exact absurd hlt (by simp)
        | cons e rest =>
          dsimp only
          split
          · refine (utf16_ensures (Nat.le_of_lt hlt)).bind fun literal hliteral => ?_
            obtain ⟨bytes, length⟩ := literal
            dsimp only at hliteral ⊢
            have hdrop : ∃ m, length = 2 * m ∧ bytes.length ≤ m ∧ 1 ≤ m := by
              rcases hliteral.1 with ⟨rfl, hbytes⟩ | ⟨rfl, hbytes⟩
              · exact ⟨3, rfl, hbytes, by decide⟩
              · exact ⟨6, rfl, Nat.le_trans hbytes (by decide), by decide⟩
            obtain ⟨m, rfl, hbytes, hm⟩ := hdrop
            have hroom := h.drop hliteral.2 hbytes
            have hlength := hroom.length_le
            rw [List.length_append] at hlength
            refine (put_ensures (by omega)).bind fun out hout => ?_
            subst hout
            exact ih hroom (by omega)
          · cases escaped e with
            | none => trivial
            | some b =>
              refine (put_ensures (by simp only [List.length_singleton]; omega)).bind fun out hout => ?_
              subst hout
              cases left with
              | zero =>
                -- the escaped byte was the closing quote
                rw [unescape_zero, Access.ensures_ok, List.length_append, List.length_singleton]
                omega
              | succ left =>
                have hbytes : [b].length ≤ 1 := Nat.le_refl 1
                have hroom := h.drop (m := 1) (by omega) hbytes
                exact ih hroom (by omega)

theorem zero_notMem_cString (block : List UInt8) : 0 ∉ cString block := by
  intro h
  have hne := List.mem_takeWhile_imp h
  simp at hne

/-- `parse_string` reads inside a text that is not empty, and writes inside the block it
allocates; the text goes on behind the closing quote. -/
theorem parse_string_ensures {text : List UInt8} (h : text ≠ []) :
    (parse_string text).Ensures fun r => 0 ∉ r.1 ∧ 0 < r.2 ∧ r.2 ≤ text.length := by
  cases text with
  | nil => exact absurd rfl h
  | cons c input =>
    rw [parse_string]
    split
    · trivial
    cases hend : findEnd input with
    | none => trivial
    | some r =>
      obtain ⟨length, skipped_bytes⟩ := r
      have hle := findEnd_le hend
      have hroom : Room (length + 1 - skipped_bytes + 1) length input [] :=
        ⟨false, skipped_bytes, hend, by rw [List.length_nil]; omega⟩
      refine (unescape_ensures hroom (Nat.le_refl length)).bind fun output houtput => ?_
      refine (put_ensures (by rwa [List.length_singleton])).bind fun output _ => ?_
      refine Access.ensures_ok.mpr ⟨zero_notMem_cString output, Nat.succ_pos _, ?_⟩
      rw [List.length_cons]
      dsimp only
      omega

end Bounds

/-! ### JSON strings -/

/-- Four hexadecimal digits. -/
structure IsHex4 (digits : List UInt8) (n : Nat) : Prop where
  length : digits.length = 4
  value : digits.foldlM (fun h c => (hexDigit c).map (16 * h + ·)) 0 = some n

def isPlain (c : UInt8) : Bool := 31 < c && c ≠ 34 && c ≠ 92

/-- The characters of a JSON string, in UTF-8 where they are written as `\u`, and their text. -/
inductive IsChars : StdString → List UInt8 → Prop where
  | nil : IsChars [] []
  | plain {c : UInt8} {s t : List UInt8} (hc : isPlain c = true) (h : IsChars s t) :
      IsChars (c :: s) (c :: t)
  | short {e b : UInt8} {s t : List UInt8} (he : escaped e = some b) (h : IsChars s t) :
      IsChars (b :: s) (92 :: e :: t)
  | unicode {digits : List UInt8} {char : Char} {s t : List UInt8} (hdigits : IsHex4 digits char.toNat)
      (h : IsChars s t) : IsChars (String.utf8EncodeChar char ++ s) (92 :: 117 :: (digits ++ t))
  | pair {digits digits' : List UInt8} {char : Char} {s t : List UInt8} (hchar : 0x10000 ≤ char.toNat)
      (hdigits : IsHex4 digits (0xD800 + (char.toNat - 0x10000) / 0x400))
      (hdigits' : IsHex4 digits' (0xDC00 + (char.toNat - 0x10000) % 0x400)) (h : IsChars s t) :
      IsChars (String.utf8EncodeChar char ++ s)
        (92 :: 117 :: (digits ++ 92 :: 117 :: (digits' ++ t)))

/-- The text of a JSON string, which a C string holds up to its first zero character. -/
def IsStringText (s : StdString) (text : List UInt8) : Prop :=
  ∃ chars t, text = 34 :: (t ++ [34]) ∧ IsChars chars t ∧ s = cString chars

section Unicode

theorem or_and_tail : ∀ x : BitVec 8, (x ||| 0x80#8) &&& 0xBF#8 = x % 64#8 + 128#8 := by decide

theorem tail_byte (n : Nat) : UInt8.ofNat ((n ||| 0x80) &&& 0xBF) = UInt8.ofNat (n % 0x40 + 0x80) := by
  have h := congrArg BitVec.toNat (or_and_tail (BitVec.ofNat 8 n))
  apply UInt8.toBitVec_inj.mp
  apply BitVec.eq_of_toNat_eq
  simp [UInt8.ofNat] at h ⊢
  omega

theorem first_byte {n m k : Nat} (hn : n < 2 ^ k) :
    UInt8.ofNat ((n ||| 2 ^ k * m) &&& 0xFF) = UInt8.ofNat (n % 2 ^ k + 2 ^ k * m) := by
  have hor : n ||| 2 ^ k * m = n + 2 ^ k * m := by
    rw [Nat.or_comm, ← Nat.two_pow_add_eq_or_of_lt hn m, Nat.add_comm]
  have hand : (n ||| 2 ^ k * m) &&& 0xFF = (n ||| 2 ^ k * m) % 256 :=
    Nat.and_two_pow_sub_one_eq_mod _ 8
  rw [hand, hor, Nat.mod_eq_of_lt hn]
  apply UInt8.toNat_inj.mp
  simp

theorem toNat_char_lt (char : Char) : char.toNat < 0x110000 := by
  have hvalid := char.valid
  simp only [UInt32.isValidChar, Nat.isValidChar] at hvalid
  change char.val.toNat < _
  omega

/-- The bytes that are written are the character's UTF-8. -/
theorem encode_utf8_char (char : Char) : encode_utf8 char.toNat = .ok (String.utf8EncodeChar char) := by
  have hlt := toNat_char_lt char
  have hval : char.val.toNat = char.toNat := rfl
  unfold encode_utf8 String.utf8EncodeChar
  dsimp only
  rw [hval]
  generalize char.toNat = n at hlt
  by_cases h1 : n < 0x80
  · have hand : n &&& 0x7F = n % 0x80 := Nat.and_two_pow_sub_one_eq_mod _ 7
    rw [if_pos h1, if_pos (by omega), hand, Nat.mod_eq_of_lt h1]
  rw [if_neg h1, if_neg (by omega : ¬ n ≤ 0x7f)]
  by_cases h2 : n < 0x800
  · have hshift : n >>> 6 = n / 64 := Nat.shiftRight_eq_div_pow n 6
    have hfirst : UInt8.ofNat ((n >>> 6 ||| 0xC0) &&& 0xFF) = UInt8.ofNat (n >>> 6 % 32 + 0xC0) :=
      @first_byte (n >>> 6) 6 5 (by rw [hshift]; omega)
    rw [if_pos h2, if_pos (by omega), utf8Bytes, utf8Bytes, tail_byte, hfirst, hshift]
    rfl
  rw [if_neg h2, if_neg (by omega : ¬ n ≤ 0x7ff)]
  by_cases h3 : n < 0x10000
  · have hshift : n >>> 6 >>> 6 = n / 4096 := by
      rw [← Nat.shiftRight_add, Nat.shiftRight_eq_div_pow]
    have hfirst : UInt8.ofNat ((n >>> 6 >>> 6 ||| 0xE0) &&& 0xFF) =
        UInt8.ofNat (n >>> 6 >>> 6 % 16 + 0xE0) :=
      @first_byte (n >>> 6 >>> 6) 14 4 (by rw [hshift]; omega)
    rw [if_pos h3, if_pos (by omega), utf8Bytes, utf8Bytes, utf8Bytes, tail_byte, tail_byte, hfirst,
      hshift, Nat.shiftRight_eq_div_pow]
    rfl
  rw [if_neg h3, if_neg (by omega : ¬ n ≤ 0xffff), if_pos (by omega)]
  have hshift₂ : n >>> 6 >>> 6 = n / 4096 := by
    rw [← Nat.shiftRight_add, Nat.shiftRight_eq_div_pow]
  have hshift₃ : n >>> 6 >>> 6 >>> 6 = n / 262144 := by
    rw [← Nat.shiftRight_add, ← Nat.shiftRight_add, Nat.shiftRight_eq_div_pow]
  have hfirst : UInt8.ofNat ((n >>> 6 >>> 6 >>> 6 ||| 0xF0) &&& 0xFF) =
      UInt8.ofNat (n >>> 6 >>> 6 >>> 6 % 8 + 0xF0) :=
    @first_byte (n >>> 6 >>> 6 >>> 6) 30 3 (by rw [hshift₃]; omega)
  rw [utf8Bytes, utf8Bytes, utf8Bytes, utf8Bytes, tail_byte, tail_byte, tail_byte, hfirst, hshift₃,
    hshift₂, Nat.shiftRight_eq_div_pow]
  rfl

end Unicode

section Read
variable {digits rest s t : List UInt8} {n : Nat}

theorem hexDigits_foldlM {k h : Nat} (hlen : digits.length = k)
    (hvalue : digits.foldlM (fun h c => (hexDigit c).map (16 * h + ·)) h = some n) :
    hexDigits k h (digits ++ rest) = .ok n := by
  induction digits generalizing k h with
  | nil =>
    subst hlen
    cases hvalue
    rfl
  | cons c digits ih =>
    subst hlen
    rw [List.foldlM_cons] at hvalue
    cases hc : hexDigit c with
    | none =>
      rw [hc] at hvalue
      cases hvalue
    | some d =>
      rw [hc] at hvalue
      rw [List.length_cons, List.cons_append, hexDigits, hc]
      exact ih rfl hvalue

theorem IsHex4.parse (h : IsHex4 digits n) : parse_hex4 (digits ++ rest) = .ok n :=
  hexDigits_foldlM h.length h.value

theorem IsHex4.ne (h : IsHex4 digits n) : ∀ c ∈ digits, c ≠ 34 ∧ c ≠ 92 := by
  have hall {l : List UInt8} {k m : Nat}
      (hl : l.foldlM (fun h c => (hexDigit c).map (16 * h + ·)) k = some m) :
      ∀ c ∈ l, (hexDigit c).isSome := by
    induction l generalizing k with
    | nil => exact fun c hc => absurd hc List.not_mem_nil
    | cons c l ih =>
      rw [List.foldlM_cons] at hl
      cases hc : hexDigit c with
      | none =>
        rw [hc] at hl
        cases hl
      | some d =>
        rw [hc] at hl
        exact List.forall_mem_cons.mpr ⟨by rw [hc]; rfl, ih hl⟩
  intro c hc
  have hsome := hall h.value c hc
  constructor
  · rintro rfl
    exact absurd hsome (by decide)
  · rintro rfl
    exact absurd hsome (by decide)

/-- Bytes that neither end the string nor start an escape. -/
theorem findEnd_append (h : ∀ c ∈ digits, c ≠ 34 ∧ c ≠ 92) (input : List UInt8) :
    findEnd (digits ++ input) = (findEnd input).map fun r => (r.1 + digits.length, r.2) := by
  induction digits with
  | nil => simp
  | cons c digits ih =>
    obtain ⟨hc, hdigits⟩ := List.forall_mem_cons.mp h
    rw [List.cons_append, findEnd.eq_def]
    dsimp only
    rw [if_neg hc.1, if_neg hc.2, ih hdigits, Option.map_map]
    rfl

theorem isPlain_ne {c : UInt8} (h : isPlain c = true) : c ≠ 34 ∧ c ≠ 92 := by
  simp only [isPlain, Bool.and_eq_true, decide_eq_true_eq, ne_eq] at h
  exact ⟨h.1.2, h.2⟩

theorem findEnd_quote (input : List UInt8) : findEnd (34 :: input) = some (0, 0) := by
  rw [findEnd.eq_def]
  rfl

theorem findEnd_escape (e : UInt8) (input : List UInt8) :
    findEnd (92 :: e :: input) = (findEnd input).map fun r => (r.1 + 2, r.2 + 1) := by
  rw [findEnd, if_neg (by decide), if_pos rfl]

theorem length_utf8_char_le (char : Char) : (String.utf8EncodeChar char).length ≤ 4 ∧
    (char.toNat < 0x10000 → (String.utf8EncodeChar char).length ≤ 3) :=
  (encode_utf8_ensures char.toNat).of_ok (encode_utf8_char char)

/-- The quote that ends the string is found, and the escapes leave room for its characters. -/
theorem findEnd_chars (h : IsChars s t) (rest : List UInt8) :
    ∃ k, findEnd (t ++ 34 :: rest) = some (t.length, k) ∧ s.length + k ≤ t.length := by
  induction h with
  | nil => exact ⟨0, findEnd_quote rest, Nat.le_refl 0⟩
  | @plain c s t hc _ ih =>
    obtain ⟨k, hend, hle⟩ := ih
    have happend := @findEnd_append [c] (by simpa using isPlain_ne hc) (t ++ 34 :: rest)
    rw [List.singleton_append, hend] at happend
    exact ⟨k, happend, by simp only [List.length_cons]; omega⟩
  | @short e b s t he _ ih =>
    obtain ⟨k, hend, hle⟩ := ih
    refine ⟨k + 1, ?_, by simp only [List.length_cons]; omega⟩
    rw [List.cons_append, List.cons_append, findEnd_escape, hend]
    rfl
  | @unicode digits char s t hdigits _ ih =>
    obtain ⟨k, hend, hle⟩ := ih
    have hbytes := (length_utf8_char_le char).1
    refine ⟨k + 1, ?_, ?_⟩
    · rw [List.cons_append, List.cons_append, findEnd_escape, List.append_assoc,
        findEnd_append hdigits.ne, hend, Option.map_map]
      simp only [Option.map_some, Function.comp_apply, List.length_cons, List.length_append]
      congr 2
      omega
    · simp only [List.length_cons, List.length_append, hdigits.length]
      omega
  | @pair digits digits' char s t hchar hdigits hdigits' _ ih =>
    obtain ⟨k, hend, hle⟩ := ih
    have hbytes := (length_utf8_char_le char).1
    refine ⟨k + 2, ?_, ?_⟩
    · rw [List.cons_append, List.cons_append, findEnd_escape, List.append_assoc,
        findEnd_append hdigits.ne, List.cons_append, List.cons_append, findEnd_escape,
        List.append_assoc, findEnd_append hdigits'.ne, hend, Option.map_map, Option.map_map,
        Option.map_map]
      simp only [Option.map_some, Function.comp_apply, List.length_cons, List.length_append]
      congr 2
      omega
    · simp only [List.length_cons, List.length_append, hdigits.length, hdigits'.length]
      omega

/-- A sequence for one of the first 65536 characters. -/
theorem utf16_unicode {char : Char} (h : IsHex4 digits char.toNat) (rest : List UInt8) {left : Nat}
    (hleft : 6 ≤ left) :
    utf16_literal_to_utf8 (92 :: 117 :: (digits ++ rest)) left = .ok (String.utf8EncodeChar char, 6) := by
  have hvalid := char.valid
  simp only [UInt32.isValidChar, Nat.isValidChar] at hvalid
  change char.toNat < _ ∨ _ < char.toNat ∧ char.toNat < _ at hvalid
  have hfirst : parse_hex4 ((92 :: 117 :: (digits ++ rest)).drop 2) = .ok char.toNat := h.parse
  rw [utf16_literal_to_utf8, if_neg (by omega), hfirst, Access.ok_bind, if_neg (by omega),
    if_neg (by omega), encode_utf8_char, Access.ok_bind]

theorem and_low (n : Nat) : n &&& 0x3FF = n % 0x400 := Nat.and_two_pow_sub_one_eq_mod n 10

/-- The two halves of a character above. -/
theorem surrogates {n : Nat} (hlow : 0x10000 ≤ n) (hhigh : n < 0x110000) :
    0x10000 + (((0xD800 + (n - 0x10000) / 0x400) &&& 0x3FF) <<< 10 |||
      (0xDC00 + (n - 0x10000) % 0x400) &&& 0x3FF) = n := by
  rw [and_low, and_low, ← Nat.shiftLeft_add_eq_or_of_lt (by omega), Nat.shiftLeft_eq]
  omega

theorem utf16_pair {digits' : List UInt8} {char : Char} (hchar : 0x10000 ≤ char.toNat)
    (h : IsHex4 digits (0xD800 + (char.toNat - 0x10000) / 0x400))
    (h' : IsHex4 digits' (0xDC00 + (char.toNat - 0x10000) % 0x400)) (rest : List UInt8) {left : Nat}
    (hleft : 12 ≤ left) :
    utf16_literal_to_utf8 (92 :: 117 :: (digits ++ 92 :: 117 :: (digits' ++ rest))) left =
      .ok (String.utf8EncodeChar char, 12) := by
  have hlt := toNat_char_lt char
  obtain ⟨a, b, c, d, rfl⟩ := List.length_eq_four.mp h.length
  have hfirst : parse_hex4 ((92 :: 117 :: ([a, b, c, d] ++ 92 :: 117 :: (digits' ++ rest))).drop 2) =
      .ok (0xD800 + (char.toNat - 0x10000) / 0x400) := h.parse
  have hsecond : parse_hex4 ((92 :: 117 :: ([a, b, c, d] ++ 92 :: 117 :: (digits' ++ rest))).drop 8) =
      .ok (0xDC00 + (char.toNat - 0x10000) % 0x400) := h'.parse
  have hslash : byteAt (92 :: 117 :: ([a, b, c, d] ++ 92 :: 117 :: (digits' ++ rest))) 6 = .ok 92 := rfl
  have hu : byteAt (92 :: 117 :: ([a, b, c, d] ++ 92 :: 117 :: (digits' ++ rest))) 7 = .ok 117 := rfl
  rw [utf16_literal_to_utf8, if_neg (by omega), hfirst, Access.ok_bind, if_neg (by omega),
    if_pos (by omega), if_neg (by omega), hslash, Access.ok_bind, hu, Access.ok_bind,
    if_neg (by decide), hsecond, Access.ok_bind, if_neg (by omega), surrogates hchar hlt,
    encode_utf8_char, Access.ok_bind]

theorem put_eq {capacity : Nat} {output bytes : List UInt8}
    (h : output.length + bytes.length ≤ capacity) : put capacity output bytes = .ok (output ++ bytes) :=
  if_pos h

theorem unescape_literal {capacity fuel left : Nat} {input output : List UInt8}
    {literal : List UInt8 × Nat} (h : utf16_literal_to_utf8 (92 :: 117 :: input) (left + 1) = .ok literal)
    (hroom : output.length + literal.1.length ≤ capacity) :
    unescape capacity (fuel + 1) (left + 1) (92 :: 117 :: input) output =
      unescape capacity fuel (left + 1 - literal.2) ((92 :: 117 :: input).drop literal.2)
        (output ++ literal.1) := by
  rw [unescape.eq_def]
  dsimp only
  rw [if_neg (fun h => h rfl), if_pos rfl, h, Access.ok_bind, put_eq hroom, Access.ok_bind]

/-- The loop turns the text of the characters into them. -/
theorem unescape_chars (h : IsChars s t) (rest : List UInt8) {capacity fuel : Nat} {output : List UInt8}
    (hroom : output.length + s.length ≤ capacity) (hfuel : t.length ≤ fuel) :
    unescape capacity fuel t.length (t ++ rest) output = .ok (output ++ s) := by
  induction h generalizing fuel output with
  | nil => rw [List.length_nil, unescape_zero, List.append_nil]
  | @plain c s t hc _ ih =>
    obtain ⟨fuel, rfl⟩ := Nat.exists_eq_succ_of_ne_zero (Nat.ne_zero_of_lt hfuel)
    rw [List.length_cons] at hfuel hroom
    rw [List.length_cons, List.cons_append, unescape.eq_def]
    dsimp only
    rw [if_pos (isPlain_ne hc).2, put_eq (by rw [List.length_singleton]; omega), Access.ok_bind,
      ih (by rw [List.length_append, List.length_singleton]; omega) (by omega)]
    rw [List.append_assoc, List.singleton_append]
  | @short e b s t he _ ih =>
    obtain ⟨fuel, rfl⟩ := Nat.exists_eq_succ_of_ne_zero (Nat.ne_zero_of_lt hfuel)
    have hu : e ≠ 117 := by
      rintro rfl
      cases he
    simp only [List.length_cons] at hfuel hroom
    rw [List.length_cons, List.length_cons, List.cons_append, List.cons_append, unescape.eq_def]
    dsimp only
    rw [if_neg (fun h => h rfl), if_neg hu, he]
    dsimp only
    rw [put_eq (by rw [List.length_singleton]; omega), Access.ok_bind, Nat.add_sub_cancel,
      ih (by rw [List.length_append, List.length_singleton]; omega) (by omega)]
    rw [List.append_assoc, List.singleton_append]
  | @unicode digits char s t hdigits _ ih =>
    obtain ⟨fuel, rfl⟩ := Nat.exists_eq_succ_of_ne_zero (Nat.ne_zero_of_lt hfuel)
    simp only [List.length_cons, List.length_append, hdigits.length] at hfuel hroom
    have hlen : (92 :: 117 :: (digits ++ t)).length = 5 + t.length + 1 := by
      simp only [List.length_cons, List.length_append, hdigits.length]
      omega
    have hsix : 6 ≤ 5 + t.length + 1 := by omega
    have hliteral := utf16_unicode hdigits (t ++ rest) hsix
    have hleft : 5 + t.length + 1 - 6 = t.length := by omega
    have hdrop : (92 :: 117 :: (digits ++ (t ++ rest))).drop 6 = t ++ rest := by
      rw [List.drop_succ_cons, List.drop_succ_cons]
      exact List.drop_left' hdigits.length
    have hput : output.length + (String.utf8EncodeChar char).length ≤ capacity := by omega
    have hroom' : (output ++ String.utf8EncodeChar char).length + s.length ≤ capacity := by
      rw [List.length_append]
      omega
    have hfuel' : t.length ≤ fuel := by omega
    rw [List.cons_append, List.cons_append, List.append_assoc, hlen, unescape_literal hliteral hput,
      hleft, hdrop, ih hroom' hfuel', List.append_assoc]
  | @pair digits digits' char s t hchar hdigits hdigits' _ ih =>
    obtain ⟨fuel, rfl⟩ := Nat.exists_eq_succ_of_ne_zero (Nat.ne_zero_of_lt hfuel)
    simp only [List.length_cons, List.length_append, hdigits.length, hdigits'.length] at hfuel hroom
    have hlen : (92 :: 117 :: (digits ++ 92 :: 117 :: (digits' ++ t))).length = 11 + t.length + 1 := by
      simp only [List.length_cons, List.length_append, hdigits.length, hdigits'.length]
      omega
    have htwelve : 12 ≤ 11 + t.length + 1 := by omega
    have hliteral := utf16_pair hchar hdigits hdigits' (t ++ rest) htwelve
    have hleft : 11 + t.length + 1 - 12 = t.length := by omega
    have hdrop : (92 :: 117 :: (digits ++ 92 :: 117 :: (digits' ++ (t ++ rest)))).drop 12 = t ++ rest := by
      obtain ⟨a, b, c, d, rfl⟩ := List.length_eq_four.mp hdigits.length
      exact List.drop_left' hdigits'.length
    have hput : output.length + (String.utf8EncodeChar char).length ≤ capacity := by omega
    have hroom' : (output ++ String.utf8EncodeChar char).length + s.length ≤ capacity := by
      rw [List.length_append]
      omega
    have hfuel' : t.length ≤ fuel := by omega
    rw [List.cons_append, List.cons_append, List.append_assoc, List.cons_append, List.cons_append,
      List.append_assoc, hlen, unescape_literal hliteral hput, hleft, hdrop, ih hroom' hfuel',
      List.append_assoc]

/-- A JSON string is read as its characters in front of the first zero. -/
theorem parse_string_text {text : List UInt8} (h : IsStringText s text) (rest : List UInt8) :
    parse_string (text ++ rest) = .ok (s, text.length) := by
  obtain ⟨chars, t, rfl, hchars, rfl⟩ := h
  obtain ⟨k, hend, hle⟩ := findEnd_chars hchars rest
  have hlen : (34 :: (t ++ [34])).length = t.length + 2 := by
    rw [List.length_cons, List.length_append, List.length_singleton]
  rw [List.cons_append, List.append_assoc, List.singleton_append, parse_string,
    if_neg (fun h => h rfl), hend]
  dsimp only
  rw [unescape_chars hchars (34 :: rest) (by rw [List.length_nil]; omega) (Nat.le_refl _),
    Access.ok_bind, List.nil_append, put_eq (by rw [List.length_singleton]; omega), Access.ok_bind, hlen,
    cString_append_zero]

end Read

/-! ### Printing -/

/-- The character behind the backslash, for those that have an escape of one character. -/
def shortEscape (c : UInt8) : Option UInt8 :=
  if c = 92 then some 92
  else if c = 34 then some 34
  else if c = 8 then some 98
  else if c = 12 then some 102
  else if c = 10 then some 110
  else if c = 13 then some 114
  else if c = 9 then some 116
  else none

/-- What a reader finds behind the opening quote. Of another control character `snprintf`
writes three bytes, `u00`, and a zero that ends the text. -/
def printedChars : StdString → List UInt8
  | [] => [34]
  | c :: s =>
    if isPlain c then c :: printedChars s
    else
      match shortEscape c with
      | some e => 92 :: e :: printedChars s
      | none => [92, 117, 48, 48]

/-- The text that `print_string_ptr` leaves. -/
def printedString (s : StdString) : List UInt8 := 34 :: printedChars (cString s)

/-- No zero, and no control character but those with a short escape. -/
def Clean (s : StdString) : Prop := ∀ c ∈ s, isPlain c = true ∨ (shortEscape c).isSome

instance (s : StdString) : Decidable (Clean s) := List.decidableBAll _ _

section Print
variable {s : StdString}

theorem Clean.cString (h : Clean s) : cString s = s := by
  rw [cJSON.cString, List.takeWhile_eq_self_iff]
  intro c hc
  have hclean := h c hc
  rw [decide_eq_true_eq]
  rintro rfl
  exact absurd hclean (by decide)

theorem escaped_shortEscape {c e : UInt8} (h : shortEscape c = some e) : escaped e = some c := by
  unfold shortEscape at h
  repeat' split at h
  all_goals first | (cases h; subst_vars; rfl) | cases h

/-- A clean string is printed as a JSON string with its characters. -/
theorem isStringText_printed (h : Clean s) : IsStringText s (printedString s) := by
  have hchars : ∃ t, printedChars s = t ++ [34] ∧ IsChars s t := by
    induction s with
    | nil => exact ⟨[], rfl, .nil⟩
    | cons c s ih =>
      obtain ⟨hc, hs⟩ := List.forall_mem_cons.mp h
      obtain ⟨t, ht, hchars⟩ := ih hs
      rw [printedChars]
      split
      · rename_i hplain
        exact ⟨c :: t, by rw [ht, List.cons_append], .plain hplain hchars⟩
      · rename_i hplain
        obtain ⟨e, he⟩ := Option.isSome_iff_exists.mp (hc.resolve_left hplain)
        rw [he]
        exact ⟨92 :: e :: t, by rw [ht, List.cons_append, List.cons_append],
          .short (escaped_shortEscape he) hchars⟩
  obtain ⟨t, ht, hchars⟩ := hchars
  exact ⟨s, t, by rw [printedString, h.cString, ht], hchars, h.cString.symm⟩

end Print

end Hardcoder.cJSON
