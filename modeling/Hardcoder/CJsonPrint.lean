import Hardcoder.CJsonParse

/-! `cJSON_Print` and `cJSON_PrintUnformatted` (cJSON.c): the text of an item, and the buffer
that grows while it is written. -/

namespace Hardcoder.cJSON
open JsonText Strtol
set_option autoImplicit false

def INT_MAX : Nat := 0x7FFFFFFF

def default_buffer_size : Nat := 256

/-- `printbuffer` -/
structure PrintBuffer where
  /-- the block; nothing was written to the bytes that are missing in it -/
  buffer : List (Option UInt8)
  offset : Nat
  depth : Nat
  format : Bool
  /-- how many blocks the allocator was asked for -/
  requests : Nat

/-- The characters up to the zero, all of which must have been written. -/
def c_string : List (Option UInt8) → Access StdString
  | [] => .outside
  | none :: _ => .outside
  | some c :: block =>
    if c = 0 then .ok []
    else do
      let s ← c_string block
      .ok (c :: s)

/-- The bytes that `snprintf` writes into a block of `n`. -/
def snprintf (n : Nat) (text : List UInt8) : List UInt8 := text.take (n - 1) ++ [0]

def hexChar (n : Nat) : UInt8 := if n < 10 then UInt8.ofNat (48 + n) else UInt8.ofNat (87 + n)

/-- `u%04x` of a byte -/
def unicodeEscape (c : UInt8) : List UInt8 :=
  [117, 48, 48, hexChar (c.toNat / 16), hexChar (c.toNat % 16)]

/-- How many characters more the string takes when it is escaped. -/
def escape_characters (s : StdString) : Nat :=
  (s.map fun c => if (shortEscape c).isSome then 1 else if c < 32 then 5 else 0).sum

namespace PrintBuffer

/-- Bytes are written from `i` bytes behind the offset on. -/
def write (i : Nat) (bytes : List UInt8) (p : PrintBuffer) : Access PrintBuffer :=
  let start := p.offset + i
  if start + bytes.length ≤ p.buffer.length then
    .ok { p with
      buffer := p.buffer.take start ++ (bytes.map some ++ p.buffer.drop (start + bytes.length)) }
  else .outside

def advance (n : Nat) (p : PrintBuffer) : PrintBuffer := { p with offset := p.offset + n }

def update_offset (p : PrintBuffer) : Access PrintBuffer := do
  let s ← c_string (p.buffer.drop p.offset)
  .ok (p.advance s.length)

section Heap

-- whether the allocator grants the request with this number, for so many bytes
variable (heap : Nat → Nat → Bool)

/-- What the block held stays, what is added to it is not written. -/
def reallocate (newsize : Nat) (p : PrintBuffer) : Access PrintBuffer :=
  if heap p.requests newsize then
    .ok { p with
      buffer := p.buffer.take newsize ++ List.replicate (newsize - p.buffer.length) none
      requests := p.requests + 1 }
  else .failed

def ensure (needed : Nat) (p : PrintBuffer) : Access PrintBuffer :=
  if 0 < p.buffer.length ∧ p.buffer.length ≤ p.offset then .failed
  else if INT_MAX < needed then .failed
  else
    let needed := needed + (p.offset + 1)
    if needed ≤ p.buffer.length then .ok p
    else if INT_MAX / 2 < needed then
      if needed ≤ INT_MAX then p.reallocate heap INT_MAX else .failed
    else p.reallocate heap (needed * 2)

/-- Room is made for the text and its zero. -/
def print_literal (text : List UInt8) (p : PrintBuffer) : Access PrintBuffer := do
  let p ← p.ensure heap (text.length + 1)
  p.write 0 (text ++ [0])

/-- The digits never fill the buffer of 26 bytes that they are put into first. -/
def print_number (d : Binary64) (p : PrintBuffer) : Access PrintBuffer := do
  let length := (number_buffer d).length
  if 25 < length then .failed
  else
    let p ← p.ensure heap (length + 1)
    let p ← p.write 0 (number_buffer d ++ [0])
    .ok (p.advance length)

/-- The loop that copies the string, from the output index on. -/
def print_chars : StdString → Nat → PrintBuffer → Access PrintBuffer
  | [], _, p => .ok p
  | c :: s, i, p =>
    if isPlain c then do
      let p ← p.write i [c]
      print_chars s (i + 1) p
    else do
      let p ← p.write i [92]
      match shortEscape c with
      | some e => do
        let p ← p.write (i + 1) [e]
        print_chars s (i + 2) p
      | none => do
        let p ← p.write (i + 1) (snprintf 4 (unicodeEscape c))
        print_chars s (i + 6) p

def print_string_ptr (input : StdString) (p : PrintBuffer) : Access PrintBuffer := do
  let s := cString input
  let output_length := s.length + escape_characters s
  let p ← p.ensure heap (output_length + 3)
  if escape_characters s = 0 then p.write 0 (34 :: (s ++ [34, 0]))
  else
    let p ← p.write 0 [34]
    let p ← print_chars s 1 p
    p.write (output_length + 1) [34, 0]

/-- The separator of two elements, if there is another. -/
def print_separator (last : Bool) (p : PrintBuffer) : Access PrintBuffer :=
  if last then .ok p
  else do
    let text : List UInt8 := if p.format then [44, 32] else [44]
    let p ← p.ensure heap (text.length + 1)
    let p ← p.write 0 (text ++ [0])
    .ok (p.advance text.length)

/-- The tabs in front of a name. -/
def print_indent (p : PrintBuffer) : Access PrintBuffer :=
  if p.format then do
    let text : List UInt8 := List.replicate p.depth 9
    let p ← p.ensure heap text.length
    let p ← p.write 0 text
    .ok (p.advance text.length)
  else .ok p

/-- The colon, which no zero is written behind. -/
def print_colon (p : PrintBuffer) : Access PrintBuffer := do
  let text : List UInt8 := if p.format then [58, 9] else [58]
  let p ← p.ensure heap text.length
  let p ← p.write 0 text
  .ok (p.advance text.length)

/-- The end of a member. -/
def print_comma (last : Bool) (p : PrintBuffer) : Access PrintBuffer := do
  let text : List UInt8 := (if last then [] else [44]) ++ (if p.format then [10] else [])
  let p ← p.ensure heap (text.length + 1)
  let p ← p.write 0 (text ++ [0])
  .ok (p.advance text.length)

mutual

def print_value : Item → PrintBuffer → Access PrintBuffer
  | .null, p => p.print_literal heap (ascii "null")
  | .bool b, p => p.print_literal heap (ascii (if b then "true" else "false"))
  | .number d, p => p.print_number heap d
  | .string s, p => p.print_string_ptr heap s
  -- print_array
  | .array items, p => do
    let p ← p.ensure heap 1
    let p ← p.write 0 [91]
    let p ← print_elements items { p with offset := p.offset + 1, depth := p.depth + 1 }
    let p ← p.ensure heap 2
    let p ← p.write 0 [93, 0]
    .ok { p with depth := p.depth - 1 }
  -- print_object
  | .object members, p => do
    let text : List UInt8 := if p.format then [123, 10] else [123]
    let p ← p.ensure heap (text.length + 1)
    let p ← p.write 0 text
    let p ← print_members members { p with offset := p.offset + text.length, depth := p.depth + 1 }
    let text : List UInt8 := (if p.format then List.replicate (p.depth - 1) 9 else []) ++ [125]
    let p ← p.ensure heap (if p.format then p.depth + 1 else 2)
    let p ← p.write 0 (text ++ [0])
    .ok { p with depth := p.depth - 1 }

def print_elements : List Item → PrintBuffer → Access PrintBuffer
  | [], p => .ok p
  | item :: items, p => do
    let p ← print_value item p
    let p ← p.update_offset
    let p ← p.print_separator heap items.isEmpty
    print_elements items p

def print_members : List (StdString × Item) → PrintBuffer → Access PrintBuffer
  | [], p => .ok p
  | (name, item) :: members, p => do
    let p ← p.print_indent heap
    let p ← p.print_string_ptr heap name
    let p ← p.update_offset
    let p ← p.print_colon heap
    let p ← print_value item p
    let p ← p.update_offset
    let p ← p.print_comma heap members.isEmpty
    print_members members p

end

end Heap

end PrintBuffer

/-- `print`: the block that is returned. -/
def printBlock (heap : Nat → Nat → Bool) (format : Bool) (item : Item) : Access (List (Option UInt8)) :=
  if heap 0 default_buffer_size then do
    let p ← PrintBuffer.print_value heap item
      { buffer := List.replicate default_buffer_size none, offset := 0, depth := 0, format := format,
        requests := 1 }
    let p ← p.update_offset
    let p ← p.reallocate heap (p.offset + 1)
    .ok p.buffer
  else .failed

/-- What is read from it. -/
def print (heap : Nat → Nat → Bool) (format : Bool) (item : Item) : Access StdString := do
  let block ← printBlock heap format item
  c_string block

/-! ### The text -/

mutual

/-- The text of an item at a depth. -/
def printedText (format : Bool) (depth : Nat) : Item → List UInt8
  | .null => ascii "null"
  | .bool b => ascii (if b then "true" else "false")
  | .number d => number_buffer d
  | .string s => printedString s
  | .array items => 91 :: (printedElements format (depth + 1) items ++ [93])
  | .object members =>
    (if format then [123, 10] else [123]) ++
      (printedMembers format (depth + 1) members ++
        ((if format then List.replicate depth 9 else []) ++ [125]))

def printedElements (format : Bool) (depth : Nat) : List Item → List UInt8
  | [] => []
  | item :: items =>
    printedText format depth item ++
      ((if items.isEmpty then [] else if format then [44, 32] else [44]) ++
        printedElements format depth items)

def printedMembers (format : Bool) (depth : Nat) : List (StdString × Item) → List UInt8
  | [] => []
  | (name, item) :: members =>
    (if format then List.replicate depth 9 else []) ++
      (printedString name ++
        ((if format then [58, 9] else [58]) ++
          (printedText format depth item ++
            (((if members.isEmpty then [] else [44]) ++ (if format then [10] else [])) ++
              printedMembers format depth members))))

end

/-! ### Its characters -/

/-- How many bytes a character takes between the quotes. -/
def escapedLength (c : UInt8) : Nat :=
  if isPlain c then 1 else if (shortEscape c).isSome then 2 else 6

theorem shortEscape_of_plain {c : UInt8} (h : isPlain c = true) : shortEscape c = none ∧ ¬ c < 32 := by
  simp only [isPlain, Bool.and_eq_true, decide_eq_true_eq] at h
  obtain ⟨⟨hlt, hquote⟩, hslash⟩ := h
  have hne {d : UInt8} (hd : d ≤ 31) : c ≠ d := fun hc => absurd (hc ▸ hlt) (UInt8.not_lt.mpr hd)
  refine ⟨?_, UInt8.not_lt.mpr hlt⟩
  rw [shortEscape, if_neg hslash, if_neg hquote, if_neg (hne (by decide)), if_neg (hne (by decide)),
    if_neg (hne (by decide)), if_neg (hne (by decide)), if_neg (hne (by decide))]

theorem lt_of_not_plain {c : UInt8} (h : ¬ isPlain c = true) (hshort : shortEscape c = none) : c < 32 := by
  have hslash : c ≠ 92 := by
    rintro rfl
    cases hshort
  have hquote : c ≠ 34 := by
    rintro rfl
    cases hshort
  by_contra hlt
  have hplain : (31 : UInt8) < c := UInt8.not_lt.mp hlt
  exact h (by simp [isPlain, hplain, hslash, hquote])

theorem length_add_escape_characters_cons (c : UInt8) (s : StdString) :
    (c :: s).length + escape_characters (c :: s) =
      escapedLength c + (s.length + escape_characters s) := by
  have hcons : escape_characters (c :: s) =
      (if (shortEscape c).isSome then 1 else if c < 32 then 5 else 0) + escape_characters s := rfl
  rw [hcons, List.length_cons, escapedLength]
  by_cases hplain : isPlain c = true
  · obtain ⟨hshort, hlt⟩ := shortEscape_of_plain hplain
    simp only [hplain, hshort, if_neg hlt]
    simp
    omega
  · rw [if_neg hplain]
    cases hshort : shortEscape c with
    | none =>
      simp only [if_pos (lt_of_not_plain hplain hshort)]
      simp
      omega
    | some e =>
      simp
      omega

/-- Without characters to escape the string is copied. -/
theorem printedChars_of_escape_zero {s : StdString} (h : escape_characters s = 0) :
    printedChars s = s ++ [34] := by
  induction s with
  | nil => rfl
  | cons c s ih =>
    have hlen := length_add_escape_characters_cons c s
    rw [List.length_cons] at hlen
    have hplain : isPlain c = true := by
      by_contra hplain
      rw [escapedLength, if_neg hplain] at hlen
      split at hlen <;> omega
    rw [escapedLength, if_pos hplain] at hlen
    rw [printedChars, if_pos hplain, ih (by omega), List.cons_append]

theorem length_printedChars {s : StdString} (h : Clean s) :
    (printedChars s).length = s.length + escape_characters s + 1 := by
  induction s with
  | nil => rfl
  | cons c s ih =>
    obtain ⟨hc, hs⟩ := List.forall_mem_cons.mp h
    rw [length_add_escape_characters_cons, printedChars, escapedLength]
    split
    · rw [List.length_cons, ih hs]
      omega
    · rename_i hplain
      obtain ⟨e, he⟩ := Option.isSome_iff_exists.mp (hc.resolve_left hplain)
      rw [he]
      simp only [List.length_cons, ih hs, Option.isSome_some, if_true]
      omega

theorem length_printedChars_le (s : StdString) : (printedChars s).length ≤ s.length + escape_characters s + 1 := by
  induction s with
  | nil => exact Nat.le_refl 1
  | cons c s ih =>
    rw [length_add_escape_characters_cons, printedChars, escapedLength]
    split
    · rw [List.length_cons]
      omega
    · cases shortEscape c with
      | some e =>
        simp only [List.length_cons, Option.isSome_some, if_true]
        omega
      | none =>
        simp only [List.length_cons, List.length_nil, Option.isSome_none, Bool.false_eq_true, if_false]
        omega

theorem zero_notMem_printedChars (s : StdString) : 0 ∉ printedChars s := by
  induction s with
  | nil => decide
  | cons c s ih =>
    rw [printedChars]
    split
    · rename_i hplain
      refine List.not_mem_cons_of_ne_of_not_mem ?_ ih
      rintro rfl
      exact absurd hplain (by decide)
    · cases hshort : shortEscape c with
      | none => exact (by decide : (0 : UInt8) ∉ [92, 117, 48, 48])
      | some e =>
        refine List.not_mem_cons_of_ne_of_not_mem (by decide)
          (List.not_mem_cons_of_ne_of_not_mem ?_ ih)
        rintro rfl
        have hescaped := escaped_shortEscape hshort
        cases hescaped

theorem zero_notMem_printedString (s : StdString) : 0 ∉ printedString s :=
  List.not_mem_cons_of_ne_of_not_mem (by decide) (zero_notMem_printedChars _)

theorem zero_notMem_literal {t : List UInt8}
    (h : t = ascii "null" ∨ ∃ b : Bool, t = ascii (if b then "true" else "false")) : 0 ∉ t := by
  rcases h with rfl | ⟨b, rfl⟩
  · decide
  · cases b <;> decide

/-- The printed text of a number has no zero. -/
theorem zero_notMem_number_buffer (d : Binary64) : 0 ∉ number_buffer d := by
  cases hfinite : d.isFinite with
  | false =>
    have hnull : number_buffer d = ascii "null" := by rw [number_buffer, hfinite, if_neg Bool.false_ne_true]
    rw [hnull]
    decide
  | true =>
    obtain ⟨⟨negative, n, htext, -, -⟩, -⟩ := isNumberText_buffer hfinite
    intro h
    rw [htext] at h
    exact absurd (Strtod.isNumberByte_text negative n 0 h) (by decide)

section Zero
variable {format : Bool}

theorem zero_notMem_tabs (depth : Nat) : 0 ∉ (if format then List.replicate depth (9 : UInt8) else []) := by
  cases format with
  | true => exact fun h => absurd (List.eq_of_mem_replicate h) (by decide)
  | false => exact List.not_mem_nil

theorem zero_notMem_separator (last : Bool) :
    0 ∉ (if last then [] else if format then [44, 32] else [(44 : UInt8)]) := by
  cases last <;> cases format <;> decide

theorem zero_notMem_comma (last : Bool) :
    0 ∉ (if last then [] else [(44 : UInt8)]) ++ (if format then [10] else []) := by
  cases last <;> cases format <;> decide

theorem zero_notMem_append {s t : List UInt8} (hs : 0 ∉ s) (ht : 0 ∉ t) : 0 ∉ s ++ t :=
  fun h => (List.mem_append.mp h).elim hs ht

mutual

theorem zero_notMem_printedText : ∀ (item : Item) (depth : Nat), 0 ∉ printedText format depth item
  | .null, _ => zero_notMem_literal (.inl rfl)
  | .bool b, _ => zero_notMem_literal (.inr ⟨b, rfl⟩)
  | .number d, _ => zero_notMem_number_buffer d
  | .string s, _ => zero_notMem_printedString s
  | .array items, depth =>
    List.not_mem_cons_of_ne_of_not_mem (by decide)
      (zero_notMem_append (zero_notMem_printedElements items (depth + 1)) (by decide))
  | .object members, depth =>
    zero_notMem_append (by cases format <;> decide)
      (zero_notMem_append (zero_notMem_printedMembers members (depth + 1))
        (zero_notMem_append (zero_notMem_tabs depth) (by decide)))

theorem zero_notMem_printedElements :
    ∀ (items : List Item) (depth : Nat), 0 ∉ printedElements format depth items
  | [], _ => List.not_mem_nil
  | item :: items, depth =>
    zero_notMem_append (zero_notMem_printedText item depth)
      (zero_notMem_append (zero_notMem_separator items.isEmpty)
        (zero_notMem_printedElements items depth))

theorem zero_notMem_printedMembers :
    ∀ (members : List (StdString × Item)) (depth : Nat), 0 ∉ printedMembers format depth members
  | [], _ => List.not_mem_nil
  | (name, item) :: members, depth =>
    zero_notMem_append (zero_notMem_tabs depth)
      (zero_notMem_append (zero_notMem_printedString name)
        (zero_notMem_append (by cases format <;> decide)
          (zero_notMem_append (zero_notMem_printedText item depth)
            (zero_notMem_append (zero_notMem_comma members.isEmpty)
              (zero_notMem_printedMembers members depth)))))

end

end Zero

end Hardcoder.cJSON
