import Hardcoder.CJsonPrint

/-! The buffer of `cJSON_Print` (cJSON.c): what is written stays inside of it, and what it
holds in the end is the text of the item. -/

namespace Hardcoder.cJSON
open JsonText Strtol
set_option autoImplicit false

/-! ### What the buffer holds -/

theorem c_string_eq {t : List UInt8} {block : List (Option UInt8)} (h : 0 ∉ t) :
    c_string (t.map some ++ some 0 :: block) = .ok t := by
  induction t with
  | nil => rfl
  | cons c t ih =>
    have hc : c ≠ 0 := fun hc => h (hc ▸ List.mem_cons_self)
    rw [List.map_cons, List.cons_append, c_string, if_neg hc, ih fun ht => h (List.mem_cons_of_mem c ht)]
    rfl

namespace PrintBuffer

/-- The buffer begins with the text, behind which it has room for more bytes than these. -/
structure Holds (format : Bool) (depth : Nat) (text : List UInt8) (room : Nat) (p : PrintBuffer) : Prop where
  buffer : ∃ rest, p.buffer = text.map some ++ rest ∧ room < rest.length
  offset : p.offset = text.length
  small : p.buffer.length ≤ INT_MAX
  format_eq : p.format = format
  depth_eq : p.depth = depth

/-- Behind the offset stands a text that a zero ends, and another byte. -/
structure Shows (format : Bool) (depth : Nat) (text t : List UInt8) (p : PrintBuffer) : Prop where
  buffer : ∃ rest, p.buffer = (text ++ t).map some ++ some 0 :: rest ∧ rest ≠ []
  offset : p.offset = text.length
  nonzero : 0 ∉ t
  small : p.buffer.length ≤ INT_MAX
  format_eq : p.format = format
  depth_eq : p.depth = depth

/-- The buffer with this in its block. -/
def holding (p : PrintBuffer) (text : List UInt8) (rest : List (Option UInt8)) : PrintBuffer :=
  { p with buffer := text.map some ++ rest }

theorem eq_holding {p : PrintBuffer} {text : List UInt8} {rest : List (Option UInt8)}
    (h : p.buffer = text.map some ++ rest) : p = p.holding text rest := by
  cases p
  cases h
  rfl

theorem length_holding (p : PrintBuffer) (text : List UInt8) (rest : List (Option UInt8)) :
    (p.holding text rest).buffer.length = text.length + rest.length := by
  rw [holding, List.length_append, List.length_map]

theorem holding_zero (p : PrintBuffer) (text : List UInt8) (rest : List (Option UInt8)) :
    (p.holding (text ++ [0]) rest).buffer = text.map some ++ some 0 :: rest := by
  rw [holding, List.map_append, List.append_assoc]
  rfl

section Spec
variable {heap : Nat → Nat → Bool} {fits : Prop} {format : Bool} {depth : Nat}
  {text t bytes : List UInt8} {room needed i : Nat} {p : PrintBuffer}

theorem Holds.mono (h : Holds format depth text needed p) (hle : room ≤ needed) :
    Holds format depth text room p := by
  obtain ⟨rest, hbuffer, hroom⟩ := h.buffer
  exact ⟨⟨rest, hbuffer, by omega⟩, h.offset, h.small, h.format_eq, h.depth_eq⟩

theorem reallocate_returns {newsize : Nat} (hp : Holds format depth text 0 p)
    (hle : p.buffer.length ≤ newsize)
    (hroom : text.length + room < newsize) (hsmall : newsize ≤ INT_MAX)
    (hheap : fits → ∀ i n, heap i n = true) :
    (p.reallocate heap newsize).Returns fits fun q => Holds format depth text room q := by
  obtain ⟨rest, hbuffer, -⟩ := hp.buffer
  unfold reallocate
  split
  · refine Access.returns_ok.mpr ⟨⟨rest ++ List.replicate (newsize - p.buffer.length) none, ?_, ?_⟩,
      hp.offset, ?_, hp.format_eq, hp.depth_eq⟩
    · dsimp only
      rw [List.take_of_length_le hle, hbuffer, List.append_assoc]
    · have hlen := congrArg List.length hbuffer
      rw [List.length_append, List.length_map] at hlen
      rw [List.length_append, List.length_replicate]
      omega
    · dsimp only
      rw [List.take_of_length_le hle, List.length_append, List.length_replicate]
      omega
  · rename_i hdenied
    exact Access.returns_failed.mpr fun h => hdenied (hheap h _ _)

/-- Room is made, if that is possible with an `int`. -/
theorem ensure_returns (hp : Holds format depth text 0 p) (hheap : fits → ∀ i n, heap i n = true)
    (hfits : fits → text.length + needed + 1 ≤ INT_MAX) :
    (p.ensure heap needed).Returns fits fun q => Holds format depth text needed q := by
  obtain ⟨rest, hbuffer, hroom⟩ := hp.buffer
  have hlen := congrArg List.length hbuffer
  rw [List.length_append, List.length_map] at hlen
  have hoffset := hp.offset
  have hsmall := hp.small
  unfold ensure
  split
  · omega
  split
  · exact Access.returns_failed.mpr fun h => by have hle := hfits h; omega
  dsimp only
  split
  · exact Access.returns_ok.mpr ⟨⟨rest, hbuffer, by omega⟩, hoffset, hsmall, hp.format_eq, hp.depth_eq⟩
  split
  · split
    · exact reallocate_returns hp hsmall (by omega) (Nat.le_refl _) hheap
    · exact Access.returns_failed.mpr fun h => by have hle := hfits h; omega
  · exact reallocate_returns hp (by omega) (by omega) (by omega) hheap

/-- Bytes are written behind what stands there. -/
theorem write_holding {rest : List (Option UInt8)} (hstart : p.offset + i = text.length)
    (hle : bytes.length ≤ rest.length) :
    (p.holding text rest).write i bytes = .ok (p.holding (text ++ bytes) (rest.drop bytes.length)) := by
  have hstart' : p.offset + i = (text.map some).length := by rw [hstart, List.length_map]
  unfold write holding
  dsimp only
  rw [if_pos (by rw [List.length_append]; omega), hstart', List.take_left, List.drop_append,
    List.drop_eq_nil_of_le (Nat.le_add_right _ _), Nat.add_sub_cancel_left, List.nil_append,
    List.map_append, List.append_assoc]

/-- What is written further behind does not change the beginning. -/
theorem write_behind (p : PrintBuffer) (text bytes : List UInt8) (rest : List (Option UInt8)) (i : Nat)
    (hstart : text.length ≤ p.offset + i)
    (hle : p.offset + i + bytes.length ≤ text.length + rest.length) :
    ∃ rest', rest'.length = rest.length ∧ (p.holding text rest).write i bytes = .ok (p.holding text rest') := by
  have htext : (text.map some).length = text.length := List.length_map _
  refine ⟨rest.take (p.offset + i - text.length) ++
    (bytes.map some ++ rest.drop (p.offset + i - text.length + bytes.length)), ?_, ?_⟩
  · simp only [List.length_append, List.length_take, List.length_map, List.length_drop]
    omega
  · unfold write holding
    dsimp only
    rw [if_pos (by rw [List.length_append, htext]; exact hle), List.take_append, List.drop_append,
      List.take_of_length_le (by rw [htext]; exact hstart),
      List.drop_eq_nil_of_le (by rw [htext]; omega), htext, List.nil_append, List.append_assoc]
    congr 6
    omega

/-- A text is written with its zero, and not passed over. -/
theorem write_shows (hp : Holds format depth text (t.length + 1) p) (ht : 0 ∉ t) :
    (p.write 0 (t ++ [0])).Returns fits fun q => Shows format depth text t q := by
  obtain ⟨rest, hbuffer, hroom⟩ := hp.buffer
  have hlen : (t ++ [(0 : UInt8)]).length = t.length + 1 := by
    rw [List.length_append, List.length_singleton]
  rw [eq_holding hbuffer, write_holding (i := 0) hp.offset (by omega)]
  refine Access.returns_ok.mpr ⟨⟨rest.drop (t.length + 1), ?_, ?_⟩, hp.offset, ht, ?_, hp.format_eq,
    hp.depth_eq⟩
  · rw [hlen, ← List.append_assoc, holding_zero]
  · rw [ne_eq, List.drop_eq_nil_iff]
    omega
  · have hsmall := hp.small
    rw [eq_holding hbuffer, length_holding] at hsmall
    rw [length_holding, List.length_append, List.length_drop, hlen]
    omega

/-- A text is written without a zero, and passed over. -/
theorem write_holds (hp : Holds format depth text t.length p) :
    (p.write 0 t).Returns fits fun q => Holds format depth (text ++ t) 0 (q.advance t.length) := by
  obtain ⟨rest, hbuffer, hroom⟩ := hp.buffer
  rw [eq_holding hbuffer, write_holding (i := 0) hp.offset (Nat.le_of_lt hroom)]
  refine Access.returns_ok.mpr ⟨⟨rest.drop t.length, rfl, ?_⟩, ?_, ?_, hp.format_eq, hp.depth_eq⟩
  · rw [List.length_drop]
    omega
  · rw [List.length_append, ← hp.offset]
    rfl
  · have hsmall := hp.small
    rw [eq_holding hbuffer, length_holding] at hsmall
    rw [advance, length_holding, List.length_append, List.length_drop]
    omega

theorem Shows.advance (h : Shows format depth text t p) : Holds format depth (text ++ t) 0 (p.advance t.length) := by
  obtain ⟨rest, hbuffer, hrest⟩ := h.buffer
  refine ⟨⟨some 0 :: rest, hbuffer, Nat.succ_pos _⟩, ?_, h.small, h.format_eq, h.depth_eq⟩
  rw [List.length_append, ← h.offset]
  rfl

theorem update_offset_returns (h : Shows format depth text t p) :
    p.update_offset.Returns fits fun q => Shows format depth (text ++ t) [] q := by
  obtain ⟨rest, hbuffer, hrest⟩ := h.buffer
  have hdrop : p.buffer.drop p.offset = t.map some ++ some 0 :: rest := by
    have hlen : (text.map some).length = p.offset := by rw [List.length_map, h.offset]
    rw [hbuffer, List.map_append, List.append_assoc, ← hlen, List.drop_left]
  rw [update_offset, hdrop, c_string_eq h.nonzero, Access.ok_bind]
  refine Access.returns_ok.mpr ⟨⟨rest, ?_, hrest⟩, h.advance.offset, List.not_mem_nil, h.small,
    h.format_eq, h.depth_eq⟩
  rw [List.append_nil]
  exact hbuffer

theorem Shows.holds (h : Shows format depth text [] p) : Holds format depth text 0 p := by
  have hadvance := h.advance
  rwa [List.append_nil] at hadvance

end Spec

section Strings
variable {heap : Nat → Nat → Bool} {fits : Prop} {text : List UInt8} {rest : List (Option UInt8)}
  {s : StdString} {i : Nat} {p : PrintBuffer}

theorem length_snprintf (c : UInt8) : (snprintf 4 (unicodeEscape c)).length = 4 := rfl

/-- The loop does not change what stands in front of its index. -/
theorem print_chars_behind (p : PrintBuffer) (text : List UInt8) (rest : List (Option UInt8))
    (s : StdString) (i : Nat) (hstart : text.length ≤ p.offset + i)
    (hle : p.offset + i + (s.length + escape_characters s) ≤ text.length + rest.length) :
    ∃ rest', rest'.length = rest.length ∧
      (p.holding text rest).print_chars s i = .ok (p.holding text rest') := by
  induction s generalizing i rest with
  | nil => exact ⟨rest, rfl, rfl⟩
  | cons c s ih =>
    rw [length_add_escape_characters_cons, escapedLength] at hle
    rw [print_chars]
    split
    · rw [if_pos ‹_›] at hle
      obtain ⟨rest₁, hrest₁, hwrite⟩ := write_behind p text [c] rest i hstart
        (by rw [List.length_singleton]; omega)
      obtain ⟨rest₂, hrest₂, hloop⟩ := ih rest₁ (i + 1) (by omega) (by omega)
      exact ⟨rest₂, hrest₂.trans hrest₁, by rw [hwrite, Access.ok_bind, hloop]⟩
    · rw [if_neg ‹_›] at hle
      obtain ⟨rest₁, hrest₁, hwrite⟩ := write_behind p text [92] rest i hstart
        (by rw [List.length_singleton]; split at hle <;> omega)
      rw [hwrite, Access.ok_bind]
      cases hshort : shortEscape c with
      | some e =>
        rw [hshort, Option.isSome_some, if_pos rfl] at hle
        obtain ⟨rest₂, hrest₂, hwrite₂⟩ := write_behind p text [e] rest₁ (i + 1) (by omega)
          (by rw [List.length_singleton]; omega)
        obtain ⟨rest₃, hrest₃, hloop⟩ := ih rest₂ (i + 2) (by omega) (by omega)
        dsimp only
        exact ⟨rest₃, by omega, by rw [hwrite₂, Access.ok_bind, hloop]⟩
      | none =>
        rw [hshort, Option.isSome_none, if_neg Bool.false_ne_true] at hle
        obtain ⟨rest₂, hrest₂, hwrite₂⟩ := write_behind p text (snprintf 4 (unicodeEscape c)) rest₁ (i + 1)
          (by omega) (by rw [length_snprintf]; omega)
        obtain ⟨rest₃, hrest₃, hloop⟩ := ih rest₂ (i + 6) (by omega) (by omega)
        dsimp only
        exact ⟨rest₃, by omega, by rw [hwrite₂, Access.ok_bind, hloop]⟩

/-- A character that is cut: the zero that `snprintf` writes ends the text. -/
theorem print_cut (c : UInt8) (hstart : p.offset + i = text.length) (hle : 4 ≤ rest.length) :
    (p.holding text rest).write i (snprintf 4 (unicodeEscape c)) =
      .ok (p.holding (text ++ [117, 48, 48] ++ [0]) (rest.drop 4)) := by
  have hbytes : snprintf 4 (unicodeEscape c) = [117, 48, 48] ++ [0] := rfl
  have hlen : ([(117 : UInt8), 48, 48] ++ [0]).length = 4 := rfl
  rw [hbytes, write_holding hstart (by rwa [hlen]), List.append_assoc, hlen]

/-- The loop leaves the text of the string and its zero. -/
theorem print_chars_text (p : PrintBuffer) (text : List UInt8) (rest : List (Option UInt8))
    (s : StdString) (i : Nat) (hstart : p.offset + i = text.length)
    (hle : s.length + escape_characters s + 2 ≤ rest.length) :
    ∃ rest', (printedChars s).length + 1 + rest'.length = rest.length ∧
      (do
        let q ← (p.holding text rest).print_chars s i
        q.write (i + (s.length + escape_characters s)) [34, 0]) =
      .ok (p.holding (text ++ printedChars s ++ [0]) rest') := by
  induction s generalizing i text rest with
  | nil =>
    have hroom : [(34 : UInt8), 0].length ≤ rest.length := hle
    refine ⟨rest.drop 2, ?_, ?_⟩
    · rw [printedChars, List.length_drop]
      exact Nat.add_sub_cancel' hroom
    · rw [print_chars, Access.ok_bind, List.append_assoc]
      exact write_holding hstart hroom
  | cons c s ih =>
    rw [length_add_escape_characters_cons] at hle ⊢
    rw [print_chars, printedChars]
    unfold escapedLength at hle ⊢
    split
    · rw [if_pos ‹_›] at hle
      have hroom : [c].length ≤ rest.length := by
        rw [List.length_singleton]
        omega
      obtain ⟨rest', hrest', hloop⟩ := ih (text ++ [c]) (rest.drop 1) (i + 1)
        (by rw [List.length_append, ← hstart]; rfl) (by rw [List.length_drop]; omega)
      refine ⟨rest', ?_, ?_⟩
      · rw [List.length_drop] at hrest'
        rw [List.length_cons]
        omega
      · rw [write_holding hstart hroom, Access.ok_bind, ← Nat.add_assoc]
        rw [List.append_assoc text, List.singleton_append] at hloop
        exact hloop
    · rw [if_neg ‹_›] at hle
      have hroom : [(92 : UInt8)].length ≤ rest.length := by
        rw [List.length_singleton]
        split at hle <;> omega
      have hstart' : p.offset + (i + 1) = (text ++ [92]).length := by
        rw [List.length_append, ← hstart]
        rfl
      rw [write_holding hstart hroom, Access.ok_bind]
      cases hshort : shortEscape c with
      | some e =>
        rw [hshort, Option.isSome_some, if_pos rfl] at hle
        have hroom' : [e].length ≤ (rest.drop [(92 : UInt8)].length).length := by
          rw [List.length_drop, List.length_singleton, List.length_singleton]
          omega
        obtain ⟨rest', hrest', hloop⟩ := ih (text ++ [92] ++ [e]) ((rest.drop 1).drop 1) (i + 2)
          (by rw [List.length_append, ← hstart']; rfl)
          (by rw [List.length_drop, List.length_drop]; omega)
        dsimp only
        refine ⟨rest', ?_, ?_⟩
        · rw [List.length_drop, List.length_drop] at hrest'
          rw [List.length_cons, List.length_cons]
          omega
        · rw [write_holding hstart' hroom', Access.ok_bind, if_pos Option.isSome_some, ← Nat.add_assoc]
          have hjoin : text ++ [92] ++ [e] ++ printedChars s = text ++ (92 :: e :: printedChars s) := by
            rw [List.append_assoc, List.append_assoc, List.singleton_append, List.singleton_append]
          rw [hjoin] at hloop
          exact hloop
      | none =>
        rw [hshort, Option.isSome_none, if_neg Bool.false_ne_true] at hle
        have hroom' : 4 ≤ (rest.drop [(92 : UInt8)].length).length := by
          rw [List.length_drop, List.length_singleton]
          omega
        dsimp only
        rw [print_cut c hstart' hroom', Access.ok_bind, if_neg (by decide)]
        obtain ⟨rest₁, hrest₁, hloop⟩ := print_chars_behind p (text ++ [92] ++ [117, 48, 48] ++ [0])
          ((rest.drop 1).drop 4) s (i + 6)
          (by simp only [List.length_append, List.length_cons, List.length_nil]; omega)
          (by
            simp only [List.length_append, List.length_drop, List.length_cons, List.length_nil]
            omega)
        obtain ⟨rest₂, hrest₂, hend⟩ := write_behind p (text ++ [92] ++ [117, 48, 48] ++ [0]) [34, 0] rest₁
          (i + (6 + (s.length + escape_characters s)))
          (by simp only [List.length_append, List.length_cons, List.length_nil]; omega)
          (by
            rw [hrest₁]
            simp only [List.length_append, List.length_drop, List.length_cons, List.length_nil]
            omega)
        refine ⟨rest₂, ?_, ?_⟩
        · rw [hrest₂, hrest₁]
          simp only [List.length_drop, List.length_cons, List.length_nil]
          omega
        · have hjoin : text ++ [92] ++ [117, 48, 48] ++ [0] = text ++ [92, 117, 48, 48] ++ [0] := by
            simp only [List.append_assoc, List.cons_append, List.nil_append]
          rw [List.length_singleton, hloop, Access.ok_bind, hend, hjoin]

end Strings

section Pieces
variable {heap : Nat → Nat → Bool} {fits : Prop} {format : Bool} {depth : Nat} {text t : List UInt8}
  {p : PrintBuffer} (hheap : fits → ∀ i n, heap i n = true)

include hheap

theorem print_literal_returns (hp : Holds format depth text 0 p) (ht : 0 ∉ t)
    (hfits : fits → text.length + t.length + 2 ≤ INT_MAX) :
    (p.print_literal heap t).Returns fits (Shows format depth text t) := by
  refine (ensure_returns hp hheap fun h => ?_).bind fun q hq => write_shows hq ht
  have hle := hfits h
  omega

/-- A text is written with a zero, and passed over. -/
theorem print_passed_returns (hp : Holds format depth text 0 p) (ht : 0 ∉ t)
    (hfits : fits → text.length + t.length + 2 ≤ INT_MAX) :
    (do
      let p ← p.ensure heap (t.length + 1)
      let p ← p.write 0 (t ++ [0])
      .ok (p.advance t.length)).Returns fits (Shows format depth (text ++ t) []) := by
  refine (ensure_returns hp hheap fun h => ?_).bind fun q hq =>
    (write_shows hq ht).bind fun r hr => ?_
  · have hle := hfits h
    omega
  · obtain ⟨rest, hbuffer, hrest⟩ := hr.buffer
    exact Access.returns_ok.mpr ⟨⟨rest, by rw [List.append_nil]; exact hbuffer, hrest⟩, hr.advance.offset,
      List.not_mem_nil, hr.small, hr.format_eq, hr.depth_eq⟩

/-- A text is written without a zero, and passed over. -/
theorem print_open_returns (hp : Holds format depth text 0 p)
    (hfits : fits → text.length + t.length + 1 ≤ INT_MAX) :
    (do
      let p ← p.ensure heap t.length
      let p ← p.write 0 t
      .ok (p.advance t.length)).Returns fits (Holds format depth (text ++ t) 0) := by
  refine (ensure_returns hp hheap fun h => ?_).bind fun q hq =>
    (write_holds hq).bind fun r hr => Access.returns_ok.mpr hr
  have hle := hfits h
  omega

theorem print_number_returns {d : Binary64} (hp : Holds format depth text 0 p)
    (hfits : fits → text.length + (number_buffer d).length + 2 ≤ INT_MAX) :
    (p.print_number heap d).Returns fits (Shows format depth (text ++ number_buffer d) []) := by
  have hlength := length_number_buffer_le d
  unfold print_number
  dsimp only
  rw [if_neg (by omega)]
  exact print_passed_returns hheap hp (zero_notMem_number_buffer d) hfits

theorem print_string_ptr_returns {s : StdString} (hp : Holds format depth text 0 p)
    (hfits : fits → Clean s ∧ text.length + (printedString s).length + 2 ≤ INT_MAX) :
    (p.print_string_ptr heap s).Returns fits (Shows format depth text (printedString s)) := by
  unfold print_string_ptr
  dsimp only
  refine (ensure_returns hp hheap fun h => ?_).bind fun q hq => ?_
  · obtain ⟨hclean, hle⟩ := hfits h
    rw [printedString, hclean.cString, List.length_cons, length_printedChars hclean] at hle
    rw [hclean.cString]
    omega
  · obtain ⟨rest, hbuffer, hroom⟩ := hq.buffer
    have hsmall := hq.small
    rw [eq_holding hbuffer, length_holding] at hsmall
    have hshows {rest' : List (Option UInt8)}
        (hrest : (printedChars (cString s)).length + 2 + rest'.length = rest.length)
        (hne : rest' ≠ []) :
        Shows format depth text (printedString s)
          (q.holding (text ++ printedString s ++ [0]) rest') := by
      refine ⟨⟨rest', holding_zero _ _ _, hne⟩, hq.offset, zero_notMem_printedString s, ?_,
        hq.format_eq, hq.depth_eq⟩
      rw [length_holding]
      simp only [printedString, List.length_append, List.length_cons, List.length_nil]
      omega
    rw [eq_holding hbuffer]
    split
    · rename_i hzero
      have hchars := printedChars_of_escape_zero hzero
      have hbytes : 34 :: (cString s ++ [34, 0]) = printedString s ++ [0] := by
        rw [printedString, hchars, List.cons_append, List.append_assoc]
        rfl
      have hlen : (printedString s ++ [0]).length = (cString s).length + 3 := by
        rw [← hbytes, List.length_cons, List.length_append]
        rfl
      rw [hbytes, write_holding (i := 0) hq.offset (by omega), ← List.append_assoc]
      refine Access.returns_ok.mpr (hshows ?_ ?_)
      · rw [hchars, List.length_append, List.length_drop, hlen, List.length_singleton]
        omega
      · rw [ne_eq, List.drop_eq_nil_iff, hlen]
        omega
    · rw [write_holding (i := 0) hq.offset (by rw [List.length_singleton]; omega), Access.ok_bind]
      obtain ⟨rest', hrest', hloop⟩ := print_chars_text q (text ++ [34]) (rest.drop 1) (cString s) 1 (by rw [hq.offset, List.length_append]; rfl)
        (by rw [List.length_drop]; omega)
      have hjoin : text ++ [34] ++ printedChars (cString s) = text ++ printedString s := by
        rw [List.append_assoc, List.singleton_append, printedString]
      rw [hjoin, Nat.add_comm 1] at hloop
      rw [List.length_singleton, hloop]
      rw [List.length_drop] at hrest'
      have hle := length_printedChars_le (cString s)
      exact Access.returns_ok.mpr (hshows (by omega) (List.ne_nil_of_length_pos (by omega)))

end Pieces

end PrintBuffer

/-! ### The text is what is written -/

/-- The text was written behind the other, and the offset passed over a part of it. -/
def PrintBuffer.Printed (format : Bool) (depth : Nat) (text new : List UInt8) (p : PrintBuffer) : Prop :=
  ∃ t t', new = t ++ t' ∧ p.Shows format depth (text ++ t) t'

namespace PrintBuffer

section Values
variable {heap : Nat → Nat → Bool} {fits : Prop} {format : Bool} {depth : Nat} {text new t : List UInt8}
  {p : PrintBuffer} (hheap : fits → ∀ i n, heap i n = true)

theorem Shows.printed (h : p.Shows format depth text new) : p.Printed format depth text new :=
  ⟨[], new, rfl, by rwa [List.append_nil]⟩

theorem Shows.printed_nil (h : p.Shows format depth (text ++ new) []) : p.Printed format depth text new :=
  ⟨new, [], (List.append_nil new).symm, h⟩

theorem Printed.update_offset (h : p.Printed format depth text new) :
    p.update_offset.Returns fits fun q => q.Shows format depth (text ++ new) [] := by
  obtain ⟨t, t', rfl, hshows⟩ := h
  rw [← List.append_assoc]
  exact update_offset_returns hshows

include hheap

theorem print_separator_returns {last : Bool} (hp : p.Holds format depth text 0)
    (ht : t = if last then [] else if format then [44, 32] else [44])
    (hfits : fits → text.length + t.length + 2 ≤ INT_MAX) :
    (p.print_separator heap last).Returns fits fun q => q.Holds format depth (text ++ t) 0 := by
  unfold print_separator
  cases last with
  | true =>
    subst ht
    rw [if_pos rfl, if_pos rfl, List.append_nil]
    exact Access.returns_ok.mpr hp
  | false =>
    rw [if_neg Bool.false_ne_true] at ht ⊢
    rw [hp.format_eq, ← ht]
    have hzero : 0 ∉ t := by
      subst ht
      cases format <;> decide
    exact (print_passed_returns hheap hp hzero hfits).imp fun q hq => hq.holds

theorem print_indent_returns (hp : p.Holds format depth text 0)
    (ht : t = if format then List.replicate depth 9 else [])
    (hfits : fits → text.length + t.length + 1 ≤ INT_MAX) :
    (p.print_indent heap).Returns fits fun q => q.Holds format depth (text ++ t) 0 := by
  unfold print_indent
  rw [hp.format_eq, hp.depth_eq]
  cases format with
  | true =>
    rw [if_pos rfl] at ht ⊢
    rw [← ht]
    exact print_open_returns hheap hp hfits
  | false =>
    subst ht
    rw [if_neg Bool.false_ne_true, if_neg Bool.false_ne_true, List.append_nil]
    exact Access.returns_ok.mpr hp

theorem print_colon_returns (hp : p.Holds format depth text 0) (ht : t = if format then [58, 9] else [58])
    (hfits : fits → text.length + t.length + 1 ≤ INT_MAX) :
    (p.print_colon heap).Returns fits fun q => q.Holds format depth (text ++ t) 0 := by
  unfold print_colon
  dsimp only
  rw [hp.format_eq, ← ht]
  exact print_open_returns hheap hp hfits

theorem print_comma_returns {last : Bool} (hp : p.Holds format depth text 0)
    (ht : t = (if last then [] else [44]) ++ (if format then [10] else []))
    (hfits : fits → text.length + t.length + 2 ≤ INT_MAX) :
    (p.print_comma heap last).Returns fits fun q => q.Holds format depth (text ++ t) 0 := by
  unfold print_comma
  dsimp only
  rw [hp.format_eq, ← ht]
  have hzero : 0 ∉ t := by
    subst ht
    cases last <;> cases format <;> decide
  exact (print_passed_returns hheap hp hzero hfits).imp fun q hq => hq.holds

mutual

/-- Behind what stands in the buffer the text of the item is written. -/
theorem print_value_returns : ∀ (item : Item) {depth : Nat} {text : List UInt8} {p : PrintBuffer},
    p.Holds format depth text 0 →
    (fits → item.All (fun _ => True) Clean ∧
      text.length + (printedText format depth item).length + 2 ≤ INT_MAX) →
    (print_value heap item p).Returns fits (Printed format depth text (printedText format depth item))
  | .null, depth, text, p, hp, hfits =>
    (print_literal_returns hheap hp (zero_notMem_literal (.inl rfl)) fun h => (hfits h).2).imp
      fun q hq => hq.printed
  | .bool b, depth, text, p, hp, hfits =>
    (print_literal_returns hheap hp (zero_notMem_literal (.inr ⟨b, rfl⟩)) fun h => (hfits h).2).imp
      fun q hq => hq.printed
  | .number d, depth, text, p, hp, hfits =>
    (print_number_returns hheap hp fun h => (hfits h).2).imp fun q hq => hq.printed_nil
  | .string s, depth, text, p, hp, hfits =>
    (print_string_ptr_returns hheap hp hfits).imp fun q hq => hq.printed
  | .array items, depth, text, p, hp, hfits => by
    have hlen : (printedText format depth (.array items)).length =
        1 + (printedElements format (depth + 1) items).length + 1 := by
      rw [printedText, List.length_cons, List.length_append, List.length_singleton]
      omega
    rw [hlen] at hfits
    rw [print_value]
    refine (ensure_returns hp hheap fun h => ?_).bind fun q hq =>
      (write_holds hq).bind fun r hr => ?_
    · obtain ⟨-, hle⟩ := hfits h
      omega
    have hopen : Holds format (depth + 1) (text ++ [91]) 0
        { r with offset := r.offset + 1, depth := r.depth + 1 } :=
      ⟨hr.buffer, hr.offset, hr.small, hr.format_eq, congrArg (· + 1) hr.depth_eq⟩
    refine (print_elements_returns items hopen fun h => ?_).bind fun s hs =>
      (ensure_returns hs hheap fun h => ?_).bind fun u hu =>
        (write_shows (t := [93]) hu (by decide)).bind fun v hv => ?_
    · obtain ⟨hclean, hle⟩ := hfits h
      rw [List.length_append, List.length_singleton]
      exact ⟨hclean, by omega⟩
    · obtain ⟨-, hle⟩ := hfits h
      rw [List.length_append, List.length_append, List.length_singleton]
      omega
    · have hdepth : v.depth - 1 = depth := by rw [hv.depth_eq, Nat.add_sub_cancel]
      have hbuffer := hv.buffer
      have hoffset := hv.offset
      rw [List.append_assoc text] at hbuffer hoffset
      exact Access.returns_ok.mpr ⟨91 :: printedElements format (depth + 1) items, [93], rfl,
        hbuffer, hoffset, hv.nonzero, hv.small, hv.format_eq, hdepth⟩
  | .object members, depth, text, p, hp, hfits => by
    rw [print_value, hp.format_eq]
    rw [printedText] at hfits ⊢
    generalize hfirst : (if format then [123, 10] else [(123 : UInt8)]) = first at hfits ⊢
    generalize hlast : (if format then List.replicate depth (9 : UInt8) else []) ++ [125] = last at hfits ⊢
    rw [List.length_append, List.length_append] at hfits
    have hneeded : 1 ≤ last.length ∧ (if format then depth + 1 + 1 else 2) = last.length + 1 := by
      rw [← hlast, List.length_append, List.length_singleton]
      cases format with
      | true =>
        rw [if_pos rfl, if_pos rfl, List.length_replicate]
        exact ⟨Nat.succ_pos depth, rfl⟩
      | false => exact ⟨Nat.le_refl 1, rfl⟩
    have hzero : 0 ∉ last := by
      rw [← hlast, List.mem_append]
      rintro (h | h)
      · cases format with
        | true => exact absurd (List.eq_of_mem_replicate h) (by decide)
        | false => cases h
      · exact absurd (List.mem_singleton.mp h) (by decide)
    refine (ensure_returns hp hheap fun h => ?_).bind fun q hq =>
      (write_holds (hq.mono (Nat.le_succ _))).bind fun r hr => ?_
    · obtain ⟨-, hle⟩ := hfits h
      omega
    have hopen : Holds format (depth + 1) (text ++ first) 0
        { r with offset := r.offset + first.length, depth := r.depth + 1 } :=
      ⟨hr.buffer, hr.offset, hr.small, hr.format_eq, congrArg (· + 1) hr.depth_eq⟩
    refine (print_members_returns members hopen fun h => ?_).bind fun s hs => ?_
    · obtain ⟨hclean, hle⟩ := hfits h
      rw [List.length_append]
      exact ⟨hclean, by omega⟩
    dsimp only
    rw [hs.format_eq, hs.depth_eq, Nat.add_sub_cancel, hlast, hneeded.2]
    refine (ensure_returns hs hheap fun h => ?_).bind fun u hu =>
      (write_shows hu hzero).bind fun v hv => ?_
    · obtain ⟨-, hle⟩ := hfits h
      rw [List.length_append, List.length_append]
      omega
    · have hdepth : v.depth - 1 = depth := by rw [hv.depth_eq, Nat.add_sub_cancel]
      have hbuffer := hv.buffer
      have hoffset := hv.offset
      rw [List.append_assoc text] at hbuffer hoffset
      exact Access.returns_ok.mpr ⟨first ++ printedMembers format (depth + 1) members, last,
        (List.append_assoc _ _ _).symm, hbuffer, hoffset, hv.nonzero, hv.small, hv.format_eq, hdepth⟩

theorem print_elements_returns : ∀ (items : List Item) {depth : Nat} {text : List UInt8} {p : PrintBuffer},
    p.Holds format depth text 0 →
    (fits → Doc.AllItems (fun _ => True) Clean items ∧
      text.length + (printedElements format depth items).length + 2 ≤ INT_MAX) →
    (print_elements heap items p).Returns fits
      fun q => q.Holds format depth (text ++ printedElements format depth items) 0
  | [], depth, text, p, hp, _ => by
    rw [print_elements, printedElements, List.append_nil]
    exact Access.returns_ok.mpr hp
  | item :: items, depth, text, p, hp, hfits => by
    rw [print_elements, printedElements]
    rw [printedElements, List.length_append, List.length_append] at hfits
    refine (print_value_returns item hp fun h => ?_).bind fun q hq =>
      hq.update_offset.bind fun r hr =>
        (print_separator_returns hheap hr.holds rfl fun h => ?_).bind fun s hs => ?_
    · obtain ⟨⟨hclean, -⟩, hle⟩ := hfits h
      exact ⟨hclean, by omega⟩
    · obtain ⟨-, hle⟩ := hfits h
      rw [List.length_append]
      omega
    · have hrest := print_elements_returns items hs fun h => by
        obtain ⟨⟨-, hclean⟩, hle⟩ := hfits h
        rw [List.length_append, List.length_append]
        exact ⟨hclean, by omega⟩
      rwa [List.append_assoc, List.append_assoc] at hrest

theorem print_members_returns : ∀ (members : List (StdString × Item)) {depth : Nat} {text : List UInt8}
    {p : PrintBuffer},
    p.Holds format depth text 0 →
    (fits → Doc.AllMembers (fun _ => True) Clean members ∧
      text.length + (printedMembers format depth members).length + 2 ≤ INT_MAX) →
    (print_members heap members p).Returns fits
      fun q => q.Holds format depth (text ++ printedMembers format depth members) 0
  | [], depth, text, p, hp, _ => by
    rw [print_members, printedMembers, List.append_nil]
    exact Access.returns_ok.mpr hp
  | (name, item) :: members, depth, text, p, hp, hfits => by
    rw [print_members, printedMembers]
    rw [printedMembers] at hfits
    simp only [List.length_append] at hfits
    refine (print_indent_returns hheap hp rfl fun h => ?_).bind fun q₁ h₁ =>
      (print_string_ptr_returns hheap h₁ fun h => ?_).bind fun q₂ h₂ =>
        h₂.printed.update_offset.bind fun q₃ h₃ =>
          (print_colon_returns hheap h₃.holds rfl fun h => ?_).bind fun q₄ h₄ =>
            (print_value_returns item h₄ fun h => ?_).bind fun q₅ h₅ =>
              h₅.update_offset.bind fun q₆ h₆ =>
                (print_comma_returns hheap h₆.holds rfl fun h => ?_).bind fun q₇ h₇ => ?_
    · obtain ⟨-, hle⟩ := hfits h
      omega
    · obtain ⟨⟨hclean, -⟩, hle⟩ := hfits h
      rw [List.length_append]
      exact ⟨hclean, by omega⟩
    · obtain ⟨-, hle⟩ := hfits h
      simp only [List.length_append]
      omega
    · obtain ⟨⟨-, hclean, -⟩, hle⟩ := hfits h
      simp only [List.length_append]
      exact ⟨hclean, by omega⟩
    · obtain ⟨-, hle⟩ := hfits h
      simp only [List.length_append]
      omega
    · have hrest := print_members_returns members h₇ fun h => by
        obtain ⟨⟨-, -, hclean⟩, hle⟩ := hfits h
        simp only [List.length_append]
        exact ⟨hclean, by omega⟩
      simpa only [List.append_assoc] using hrest

end

end Values

end PrintBuffer

section Print
variable {heap : Nat → Nat → Bool} {format : Bool} {item : Item}

theorem printBlock_returns (heap : Nat → Nat → Bool) (format : Bool) (item : Item) {fits : Prop}
    (hheap : fits → ∀ i n, heap i n = true)
    (hfits : fits → item.All (fun _ => True) Clean ∧ (printedText format 0 item).length + 2 ≤ INT_MAX) :
    (printBlock heap format item).Returns fits fun block =>
      block = (printedText format 0 item).map some ++ [some 0] ∧
        (printedText format 0 item).length + 2 ≤ INT_MAX := by
  unfold printBlock
  split
  · have hstart : PrintBuffer.Holds format 0 [] 0
        { buffer := List.replicate default_buffer_size none, offset := 0, depth := 0, format := format,
          requests := 1 } :=
      ⟨⟨List.replicate default_buffer_size none, rfl, by rw [List.length_replicate]; decide⟩, rfl,
        by rw [List.length_replicate]; decide, rfl, rfl⟩
    refine (PrintBuffer.print_value_returns hheap item hstart fun h => ?_).bind fun p hp =>
      hp.update_offset.bind fun q hq => ?_
    · obtain ⟨hclean, hle⟩ := hfits h
      rw [List.length_nil, Nat.zero_add]
      exact ⟨hclean, hle⟩
    obtain ⟨rest, hbuffer, hrest⟩ := hq.buffer
    have hoffset := hq.offset
    have hsmall := hq.small
    rw [List.nil_append] at hoffset
    rw [List.append_nil, List.nil_append] at hbuffer
    generalize printedText format 0 item = text at hbuffer hoffset
    have hpos := List.length_pos_iff.mpr hrest
    rw [hbuffer, List.length_append, List.length_map, List.length_cons] at hsmall
    have hlen : (text.map some).length = text.length := List.length_map _
    have htake : q.buffer.take (q.offset + 1) = text.map some ++ [some 0] := by
      rw [hbuffer, hoffset, ← hlen, List.take_length_add_append]
      rfl
    have hmore : q.offset + 1 - q.buffer.length = 0 := by
      rw [hbuffer, hoffset, List.length_append, hlen, List.length_cons]
      omega
    unfold PrintBuffer.reallocate
    split
    · refine Access.returns_ok.mpr ⟨?_, by omega⟩
      dsimp only
      rw [htake, hmore, List.replicate_zero, List.append_nil]
    · rename_i hdenied
      exact Access.returns_failed.mpr fun h => hdenied (hheap h _ _)
  · rename_i hdenied
    exact Access.returns_failed.mpr fun h => hdenied (hheap h _ _)

/-- Whatever the allocator does, no byte outside the block is touched and none is read that was
not written, and what is returned is the text of the item and a zero, without a byte more. -/
theorem printBlock_ensures (heap : Nat → Nat → Bool) (format : Bool) (item : Item) :
    (printBlock heap format item).Ensures (· = (printedText format 0 item).map some ++ [some 0]) :=
  (printBlock_returns heap format item False.elim False.elim).ensures.imp fun _ h => h.1

theorem print_returns (heap : Nat → Nat → Bool) (format : Bool) (item : Item) {fits : Prop}
    (hheap : fits → ∀ i n, heap i n = true)
    (hfits : fits → item.All (fun _ => True) Clean ∧ (printedText format 0 item).length + 2 ≤ INT_MAX) :
    (print heap format item).Returns fits fun text =>
      text = printedText format 0 item ∧ text.length + 2 ≤ INT_MAX := by
  refine (printBlock_returns heap format item hheap hfits).bind fun block hblock => ?_
  obtain ⟨rfl, hle⟩ := hblock
  rw [c_string_eq (zero_notMem_printedText item 0)]
  exact Access.returns_ok.mpr ⟨rfl, hle⟩

theorem text_of_print {text : StdString} (h : print heap format item = .ok text) :
    text = printedText format 0 item :=
  ((print_returns heap format item False.elim False.elim).ensures.of_ok h).1

theorem length_of_print {text : StdString} (h : print heap format item = .ok text) :
    text.length + 2 ≤ INT_MAX :=
  ((print_returns heap format item False.elim False.elim).ensures.of_ok h).2

/-- If memory is never short the text is returned, as long as an `int` can count it. -/
theorem print_eq (hheap : ∀ i n, heap i n = true) (hclean : item.All (fun _ => True) Clean) :
    print heap format item =
      if (printedText format 0 item).length + 2 ≤ INT_MAX then .ok (printedText format 0 item)
      else .failed := by
  have hreturns : (print heap format item).Returns ((printedText format 0 item).length + 2 ≤ INT_MAX)
      fun text => text = printedText format 0 item ∧ text.length + 2 ≤ INT_MAX :=
    print_returns heap format item (fun _ => hheap) fun h => ⟨hclean, h⟩
  split
  · obtain ⟨text, htext, rfl, -⟩ := hreturns.exists_ok ‹_›
    exact htext
  · cases hprint : print heap format item with
    | outside =>
      rw [hprint] at hreturns
      exact hreturns.elim
    | failed => rfl
    | ok text =>
      rw [hprint] at hreturns
      obtain ⟨rfl, hle⟩ := Access.returns_ok.mp hreturns
      exact absurd hle ‹_›

theorem print_eq_nested : print (fun _ _ => true) true (.object [(ascii "a", .array [.null])]) =
    if (printedText true 0 (.object [(ascii "a", .array [.null])])).length + 2 ≤ INT_MAX then
      .ok (printedText true 0 (.object [(ascii "a", .array [.null])])) else .failed :=
  print_eq (fun _ _ => rfl) ⟨by decide, ⟨trivial, trivial⟩, trivial⟩

end Print

end Hardcoder.cJSON
