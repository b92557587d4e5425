import Hardcoder.CJsonParse

/-! `cJSON_Parse` reads every JSON text that is not nested too deeply, and whose numbers are
not too long. -/

namespace Hardcoder.cJSON
open JsonText Strtol Strtod
set_option autoImplicit false

section Text
variable {content rest : List UInt8} {offset : Nat}

theorem skip_blank {w : List UInt8} {c : UInt8} (hw : Blank w) (hc : 32 < c)
    (hcontent : content.drop offset = w ++ c :: rest) :
    buffer_skip_whitespace content offset = offset + w.length ∧
      content.drop (offset + w.length) = c :: rest := by
  have hblank : ∀ d ∈ w, (decide (d ≤ 32)) = true := by
    intro d hd
    rcases hw d hd with rfl | rfl | rfl | rfl <;> decide
  have htake : (content.drop offset).takeWhile (· ≤ 32) = w := by
    rw [hcontent, List.takeWhile_append_of_pos hblank, List.takeWhile_cons_of_neg, List.append_nil]
    simpa using hc
  have hdrop : content.drop (offset + w.length) = c :: rest := by
    rw [← List.drop_drop, hcontent, List.drop_left]
  have hlt : offset + w.length < content.length := by
    by_contra hle
    rw [List.drop_eq_nil_of_le (Nat.le_of_not_lt hle)] at hdrop
    cases hdrop
  refine ⟨?_, hdrop⟩
  unfold buffer_skip_whitespace
  dsimp only
  rw [htake, if_neg (Nat.ne_of_lt hlt)]

theorem getElem?_of_drop {c : UInt8} (h : content.drop offset = c :: rest) : content[offset]? = some c := by
  rw [← List.head?_drop, h]
  rfl

/-- A text that starts with none of the literals. -/
theorem parse_with_cons {array object : Nat → Access (Item × Nat)} {c : UInt8} {t : List UInt8}
    (htext : content.drop offset = c :: t) (hn : c ≠ 110) (hf : c ≠ 102) (ht : c ≠ 116) :
    parse_with content array object offset =
      if c = 34 then do
        let string ← parse_string (c :: t)
        .ok (.string string.1, offset + string.2)
      else if c = 45 ∨ isdigit c then
        match parse_number (c :: t) with
        | none => .failed
        | some (d, length) => .ok (.number d, offset + length)
      else if c = 91 then array offset
      else if c = 123 then object offset
      else .failed := by
  have hprefix {d : UInt8} {word : List UInt8} (hd : c ≠ d) : ¬ (d :: word).isPrefixOf (c :: t) = true := by
    rw [List.isPrefixOf_iff_prefix, List.cons_prefix_cons]
    exact fun h => hd h.1.symm
  have hnull : ¬ (ascii "null").isPrefixOf (c :: t) = true := hprefix hn
  have hfalse : ¬ (ascii "false").isPrefixOf (c :: t) = true := hprefix hf
  have htrue : ¬ (ascii "true").isPrefixOf (c :: t) = true := hprefix ht
  unfold parse_with
  dsimp only
  rw [htext]
  exact (if_neg hnull).trans ((if_neg hfalse).trans (if_neg htrue))

/-- What may stand behind a value. -/
theorem ends_cons {c : UInt8} {t : List UInt8} (h : isNumberByte c = false) : Ends (c :: t) := by
  intro d hd
  rwa [← Option.some.inj hd]

theorem ends_blank {w : List UInt8} {c : UInt8} {t : List UInt8} (hw : Blank w)
    (h : isNumberByte c = false) : Ends (w ++ c :: t) := by
  cases w with
  | nil => exact ends_cons h
  | cons d w =>
    refine ends_cons ?_
    rcases hw d List.mem_cons_self with rfl | rfl | rfl | rfl <;> rfl

theorem head_number {d : Binary64} {text : List UInt8} (h : IsNumberText d text) :
    ∃ c t, text = c :: t ∧ (c = 45 ∨ isdigit c = true) := by
  obtain ⟨⟨negative, n, rfl, -, -⟩, -⟩ := h
  cases negative with
  | true => exact ⟨45, n.text, rfl, .inl rfl⟩
  | false =>
    obtain ⟨c, cs, hc⟩ := List.exists_cons_of_ne_nil n.numeral.nonempty
    refine ⟨c, cs ++ n.pointText ++ n.exponentText, ?_, .inr ?_⟩
    · rw [signed, if_neg Bool.false_ne_true, Numeral.text, hc, List.cons_append, List.cons_append]
    · exact n.numeral.digits c (hc ▸ List.mem_cons_self)

theorem digit_ne {c : UInt8} (h : c = 45 ∨ isdigit c = true) :
    c ≠ 110 ∧ c ≠ 102 ∧ c ≠ 116 ∧ c ≠ 34 ∧ c ≠ 93 ∧ c ≠ 0xEF ∧ 32 < c := by
  rcases h with rfl | h
  · decide
  · have h48 : (48 : UInt8).toNat = 48 := rfl
    have h57 : (57 : UInt8).toNat = 57 := rfl
    simp only [isdigit, Bool.and_eq_true, decide_eq_true_eq, UInt8.le_iff_toNat_le] at h
    refine ⟨?_, ?_, ?_, ?_, ?_, ?_, ?_⟩
    · rintro rfl
      exact absurd h (by decide)
    · rintro rfl
      exact absurd h (by decide)
    · rintro rfl
      exact absurd h (by decide)
    · rintro rfl
      exact absurd h (by decide)
    · rintro rfl
      exact absurd h (by decide)
    · rintro rfl
      exact absurd h (by decide)
    · rw [UInt8.lt_iff_toNat_lt]
      have h32 : (32 : UInt8).toNat = 32 := rfl
      omega

/-- The text of a value starts neither with white space, nor with the end of an array or the
first byte of a byte order mark. -/
theorem head_text {item : Item} {text : List UInt8} (h : IsText IsNumberText IsStringText item text) :
    ∃ c t, text = c :: t ∧ c ≠ 93 ∧ c ≠ 0xEF ∧ 32 < c := by
  cases item with
  | null => exact ⟨_, _, h, by decide⟩
  | bool b => cases b <;> exact ⟨_, _, h, by decide⟩
  | number d =>
    obtain ⟨c, t, rfl, hc⟩ := head_number h
    exact ⟨c, t, rfl, (digit_ne hc).2.2.2.2⟩
  | string s =>
    obtain ⟨chars, t, rfl, -⟩ := h
    exact ⟨34, _, rfl, by decide⟩
  | array items =>
    obtain ⟨inner, rfl, -⟩ := h
    exact ⟨91, _, rfl, by decide⟩
  | object members =>
    obtain ⟨inner, rfl, -⟩ := h
    exact ⟨123, _, rfl, by decide⟩

theorem drop_append {t : List UInt8} (h : content.drop offset = t ++ rest) :
    content.drop (offset + t.length) = rest := by
  rw [← List.drop_drop, h, List.drop_left]

theorem parse_with_literal {array object : Nat → Access (Item × Nat)} {item : Item} {text : List UInt8}
    (h : item = .null ∧ text = ascii "null" ∨ ∃ b, item = .bool b ∧
      text = ascii (if b then "true" else "false")) (hcontent : content.drop offset = text ++ rest) :
    parse_with content array object offset = .ok (item, offset + text.length) := by
  have hself (word : List UInt8) : word.isPrefixOf (word ++ rest) = true :=
    List.isPrefixOf_iff_prefix.mpr (List.prefix_append word rest)
  unfold parse_with
  dsimp only
  rw [hcontent]
  rcases h with ⟨rfl, rfl⟩ | ⟨b, rfl, rfl⟩
  · rw [if_pos (hself _)]
    rfl
  · cases b with
    | false =>
      have hnull : ¬ (ascii "null").isPrefixOf (ascii "false" ++ rest) = true := Bool.false_ne_true
      exact (if_neg hnull).trans (if_pos (hself (ascii "false")))
    | true =>
      have hnull : ¬ (ascii "null").isPrefixOf (ascii "true" ++ rest) = true := Bool.false_ne_true
      have hfalse : ¬ (ascii "false").isPrefixOf (ascii "true" ++ rest) = true := Bool.false_ne_true
      exact (if_neg hnull).trans ((if_neg hfalse).trans (if_pos (hself (ascii "true"))))

/-- Every text of the item is read, up to its end. -/
def ReadsText (content : List UInt8) (parse_value : Nat → Access (Item × Nat)) (item : Item) : Prop :=
  ∀ {text rest : List UInt8} {offset : Nat}, IsText IsNumberText IsStringText item text →
    content.drop offset = text ++ rest → Ends rest →
      parse_value offset = .ok (item, offset + text.length)

/-- A value with white space around it, in front of a byte that ends it. -/
theorem parse_around {parse_value : Nat → Access (Item × Nat)} {item : Item} {t : List UInt8} {c : UInt8}
    (hread : ReadsText content parse_value item) (hc : 32 < c) (hnumber : isNumberByte c = false)
    (h : Around (IsText IsNumberText IsStringText item) t) (hcontent : content.drop offset = t ++ c :: rest) :
    ∃ behind, parse_value (buffer_skip_whitespace content offset) = .ok (item, behind) ∧
      buffer_skip_whitespace content behind = offset + t.length := by
  obtain ⟨w, text, w', rfl, hw, htext, hw'⟩ := h
  obtain ⟨d, s, rfl, -, -, hd⟩ := head_text htext
  rw [List.append_assoc, List.append_assoc, List.cons_append] at hcontent
  obtain ⟨hskip, hdrop⟩ := skip_blank hw hd hcontent
  rw [← List.cons_append] at hdrop
  obtain ⟨hskip', -⟩ := skip_blank hw' hc (drop_append hdrop)
  refine ⟨_, by rw [hskip]; exact hread htext hdrop (ends_blank hw' hnumber), ?_⟩
  rw [hskip', List.length_append, List.length_append]
  omega

/-- A name with white space around it, in front of the colon. -/
theorem parse_string_around {name : StdString} {t : List UInt8} {c : UInt8} (hc : 32 < c)
    (h : Around (IsStringText name) t) (hcontent : content.drop offset = t ++ c :: rest) :
    ∃ length, parse_string (content.drop (buffer_skip_whitespace content offset)) = .ok (name, length) ∧
      buffer_skip_whitespace content (buffer_skip_whitespace content offset + length) =
        offset + t.length := by
  obtain ⟨w, text, w', rfl, hw, htext, hw'⟩ := h
  have hquote : ∃ s, text = 34 :: s := by
    obtain ⟨chars, s, rfl, -⟩ := htext
    exact ⟨_, rfl⟩
  obtain ⟨s, rfl⟩ := hquote
  rw [List.append_assoc, List.append_assoc, List.cons_append] at hcontent
  obtain ⟨hskip, hdrop⟩ := skip_blank hw (by decide) hcontent
  rw [← List.cons_append] at hdrop
  obtain ⟨hskip', -⟩ := skip_blank hw' hc (drop_append hdrop)
  refine ⟨_, by rw [hskip, hdrop]; exact parse_string_text htext _, ?_⟩
  rw [hskip, hskip', List.length_append, List.length_append]
  omega

theorem getElem?_behind {t : List UInt8} {c : UInt8} (h : content.drop offset = t ++ c :: rest) :
    content[offset + t.length]? = some c := getElem?_of_drop (drop_append h)

end Text

section Complete
variable {content : List UInt8}

theorem parse_value_with (content : List UInt8) (levels : Nat) :
    ∃ array object, parse_value content levels = parse_with content array object := by
  cases levels with
  | zero => exact ⟨_, _, rfl⟩
  | succ levels => exact ⟨_, _, rfl⟩

theorem parse_with_number {array object : Nat → Access (Item × Nat)} {d : Binary64}
    {text rest : List UInt8} {offset : Nat} (h : IsNumberText d text)
    (hcontent : content.drop offset = text ++ rest) (hrest : Ends rest) :
    parse_with content array object offset = .ok (.number d, offset + text.length) := by
  have hparse := parse_number_text h hrest
  obtain ⟨c, t, rfl, hc⟩ := head_number h
  obtain ⟨hn, hf, ht, hquote, -⟩ := digit_ne hc
  rw [List.cons_append] at hcontent hparse
  rw [parse_with_cons hcontent hn hf ht, if_neg hquote, if_pos hc, hparse]

theorem parse_with_string {array object : Nat → Access (Item × Nat)} {s : StdString}
    {text rest : List UInt8} {offset : Nat} (h : IsStringText s text)
    (hcontent : content.drop offset = text ++ rest) :
    parse_with content array object offset = .ok (.string s, offset + text.length) := by
  have hparse := parse_string_text h rest
  obtain ⟨chars, t, rfl, -⟩ := h
  rw [List.cons_append] at hcontent hparse
  rw [parse_with_cons hcontent (by decide) (by decide) (by decide), if_pos rfl, hparse, Access.ok_bind]

theorem parse_with_array {parse_value : Nat → Access (Item × Nat)}
    {object : Nat → Access (Item × Nat)} {text : List UInt8} {offset : Nat}
    (hcontent : content.drop offset = 91 :: text) :
    parse_with content (parse_array content parse_value) object offset =
      parse_array content parse_value offset := by
  rw [parse_with_cons hcontent (by decide) (by decide) (by decide), if_neg (by decide),
    if_neg (by decide), if_pos rfl]

theorem parse_with_object {parse_value : Nat → Access (Item × Nat)}
    {array : Nat → Access (Item × Nat)} {text : List UInt8} {offset : Nat}
    (hcontent : content.drop offset = 123 :: text) :
    parse_with content array (parse_object content parse_value) offset =
      parse_object content parse_value offset := by
  rw [parse_with_cons hcontent (by decide) (by decide) (by decide), if_neg (by decide),
    if_neg (by decide), if_neg (by decide), if_pos rfl]

section Elements
variable {parse_value : Nat → Access (Item × Nat)} {inner rest : List UInt8} {fuel offset : Nat}

/-- The elements up to the bracket; every one takes a byte at least. -/
theorem parse_elements_text {items : List Item} (hne : items ≠ [])
    (hread : ∀ item ∈ items, ReadsText content parse_value item)
    (h : IsItems IsNumberText IsStringText items inner)
    (hcontent : content.drop (offset + 1) = inner ++ 93 :: rest) (hfuel : inner.length < fuel) :
    parse_elements content parse_value fuel offset = .ok (items, offset + 1 + inner.length + 1) := by
  induction items generalizing inner fuel offset with
  | nil => exact absurd rfl hne
  | cons item items ih =>
    obtain ⟨hitem, hitems⟩ := List.forall_mem_cons.mp hread
    obtain ⟨fuel, rfl⟩ : ∃ k, fuel = k + 1 := Nat.exists_eq_succ_of_ne_zero (by omega)
    rw [parse_elements]
    cases items with
    | nil =>
      obtain ⟨behind, hvalue, hskip⟩ := parse_around hitem (by decide) rfl h hcontent
      rw [hvalue, Access.ok_bind]
      dsimp only
      rw [hskip, getElem?_behind hcontent, if_neg (by decide), if_pos rfl]
    | cons item' items =>
      obtain ⟨t, t', rfl, ht, ht'⟩ := h
      rw [List.append_assoc, List.cons_append] at hcontent
      rw [List.length_append, List.length_cons] at hfuel
      obtain ⟨behind, hvalue, hskip⟩ := parse_around hitem (by decide) rfl ht hcontent
      have hdrop : content.drop (offset + 1 + t.length + 1) = t' ++ 93 :: rest := by
        rw [← List.drop_drop, drop_append hcontent]
        rfl
      rw [hvalue, Access.ok_bind]
      dsimp only
      rw [hskip, getElem?_behind hcontent, if_pos rfl,
        ih (List.cons_ne_nil _ _) hitems ht' hdrop (by omega), Access.ok_bind, List.length_append,
        List.length_cons]
      congr 2
      omega

theorem parse_members_text {members : List (StdString × Item)} (hne : members ≠ [])
    (hread : ∀ member ∈ members, ReadsText content parse_value member.2)
    (h : IsMembers IsNumberText IsStringText members inner)
    (hcontent : content.drop (offset + 1) = inner ++ 125 :: rest) (hfuel : inner.length < fuel) :
    parse_members content parse_value fuel offset = .ok (members, offset + 1 + inner.length + 1) := by
  induction members generalizing inner fuel offset with
  | nil => exact absurd rfl hne
  | cons member members ih =>
    obtain ⟨name, item⟩ := member
    obtain ⟨hitem, hmembers⟩ := List.forall_mem_cons.mp hread
    obtain ⟨fuel, rfl⟩ : ∃ k, fuel = k + 1 := Nat.exists_eq_succ_of_ne_zero (by omega)
    rw [parse_members]
    dsimp only
    cases members with
    | nil =>
      obtain ⟨t, t', rfl, ht, ht'⟩ := h
      rw [List.append_assoc, List.cons_append] at hcontent
      obtain ⟨length, hname, hcolon⟩ := parse_string_around (by decide) ht hcontent
      have hdrop : content.drop (offset + 1 + t.length + 1) = t' ++ 125 :: rest := by
        rw [← List.drop_drop, drop_append hcontent]
        rfl
      obtain ⟨behind, hvalue, hskip⟩ := parse_around hitem (by decide) rfl ht' hdrop
      rw [hname, Access.ok_bind]
      dsimp only
      rw [hcolon, getElem?_behind hcontent, if_neg (fun h => h rfl), hvalue, Access.ok_bind]
      dsimp only
      rw [hskip, getElem?_behind hdrop, if_neg (by decide), if_pos rfl, List.length_append,
        List.length_cons]
      congr 2
      omega
    | cons member' members =>
      obtain ⟨t₁, t₂, rfl, ⟨t, t', rfl, ht, ht'⟩, ht₂⟩ := h
      rw [List.append_assoc, List.append_assoc, List.cons_append, List.cons_append] at hcontent
      rw [List.length_append, List.length_append, List.length_cons, List.length_cons] at hfuel
      obtain ⟨length, hname, hcolon⟩ := parse_string_around (by decide) ht hcontent
      have hdrop : content.drop (offset + 1 + t.length + 1) = t' ++ 44 :: (t₂ ++ 125 :: rest) := by
        rw [← List.drop_drop, drop_append hcontent]
        rfl
      obtain ⟨behind, hvalue, hskip⟩ := parse_around hitem (by decide) rfl ht' hdrop
      have hdrop' : content.drop (offset + 1 + t.length + 1 + t'.length + 1) = t₂ ++ 125 :: rest := by
        rw [← List.drop_drop, drop_append hdrop]
        rfl
      rw [hname, Access.ok_bind]
      dsimp only
      rw [hcolon, getElem?_behind hcontent, if_neg (fun h => h rfl), hvalue, Access.ok_bind]
      dsimp only
      rw [hskip, getElem?_behind hdrop, if_pos rfl,
        ih (List.cons_ne_nil _ _) hmembers ht₂ hdrop' (by omega), Access.ok_bind]
      simp only [List.length_append, List.length_cons]
      congr 2
      omega

/-- They read on from white space as from the byte in front of it. -/
theorem parse_elements_skip {w t : List UInt8} {c : UInt8} (hw : Blank w) (hc : 32 < c)
    (hcontent : content.drop (offset + 1) = w ++ c :: t) :
    parse_elements content parse_value fuel (offset + 1 + w.length - 1) =
      parse_elements content parse_value fuel offset := by
  obtain ⟨hskip, hdrop⟩ := skip_blank hw hc hcontent
  obtain ⟨hstay, -⟩ := skip_blank blank_nil hc hdrop
  have hback : offset + 1 + w.length - 1 + 1 = offset + 1 + w.length := by omega
  cases fuel with
  | zero => rfl
  | succ fuel =>
    rw [parse_elements, parse_elements, hback, hstay, hskip]
    rfl

theorem parse_members_skip {w t : List UInt8} {c : UInt8} (hw : Blank w) (hc : 32 < c)
    (hcontent : content.drop (offset + 1) = w ++ c :: t) :
    parse_members content parse_value fuel (offset + 1 + w.length - 1) =
      parse_members content parse_value fuel offset := by
  obtain ⟨hskip, hdrop⟩ := skip_blank hw hc hcontent
  obtain ⟨hstay, -⟩ := skip_blank blank_nil hc hdrop
  have hback : offset + 1 + w.length - 1 + 1 = offset + 1 + w.length := by omega
  cases fuel with
  | zero => rfl
  | succ fuel =>
    rw [parse_members, parse_members, hback, hstay, hskip]
    rfl

theorem head_items {items : List Item} (hne : items ≠ [])
    (h : IsItems IsNumberText IsStringText items inner) :
    ∃ w c t, inner = w ++ c :: t ∧ Blank w ∧ c ≠ 93 ∧ 32 < c := by
  have haround {item : Item} {t : List UInt8} (h : Around (IsText IsNumberText IsStringText item) t) :
      ∃ w c t', t = w ++ c :: t' ∧ Blank w ∧ c ≠ 93 ∧ 32 < c := by
    obtain ⟨w, text, w', rfl, hw, htext, -⟩ := h
    obtain ⟨c, s, rfl, hc, -, hlt⟩ := head_text htext
    exact ⟨w, c, s ++ w', by rw [List.cons_append], hw, hc, hlt⟩
  cases items with
  | nil => exact absurd rfl hne
  | cons item items =>
    cases items with
    | nil => exact haround h
    | cons item' items =>
      obtain ⟨t, t', rfl, ht, -⟩ := h
      obtain ⟨w, c, s, rfl, hw, hc⟩ := haround ht
      exact ⟨w, c, s ++ 44 :: t', by rw [List.append_assoc, List.cons_append], hw, hc⟩

theorem head_members {members : List (StdString × Item)} (hne : members ≠ [])
    (h : IsMembers IsNumberText IsStringText members inner) :
    ∃ w t, inner = w ++ 34 :: t ∧ Blank w := by
  have hpair {name : StdString} {item : Item} {t : List UInt8}
      (h : Pair (IsStringText name) (IsText IsNumberText IsStringText item) t) :
      ∃ w t', t = w ++ 34 :: t' ∧ Blank w := by
    obtain ⟨t₁, t₂, rfl, ⟨w, text, w', rfl, hw, ⟨chars, s, rfl, -⟩, -⟩, -⟩ := h
    exact ⟨w, s ++ [34] ++ w' ++ 58 :: t₂, by simp, hw⟩
  cases members with
  | nil => exact absurd rfl hne
  | cons member members =>
    obtain ⟨name, item⟩ := member
    cases members with
    | nil => exact hpair h
    | cons member' members =>
      obtain ⟨t, t', rfl, ht, -⟩ := h
      obtain ⟨w, s, rfl, hw⟩ := hpair ht
      exact ⟨w, s ++ 44 :: t', by rw [List.append_assoc, List.cons_append], hw⟩

theorem lt_of_getElem? {c : UInt8} {i : Nat} (h : content[i]? = some c) : ¬ content.length ≤ i :=
  Nat.not_le.mpr (List.getElem?_eq_some_iff.mp h).1

theorem parse_array_text {items : List Item} (hread : ∀ item ∈ items, ReadsText content parse_value item)
    (h : IsItems IsNumberText IsStringText items inner)
    (hcontent : content.drop offset = 91 :: (inner ++ 93 :: rest)) :
    parse_array content parse_value offset = .ok (.array items, offset + 1 + inner.length + 1) := by
  have hopen := getElem?_of_drop hcontent
  have hdrop : content.drop (offset + 1) = inner ++ 93 :: rest := by
    rw [← List.drop_drop, hcontent]
    rfl
  have hfuel : inner.length < content.length := by
    have hlen := congrArg List.length hdrop
    rw [List.length_drop, List.length_append, List.length_cons] at hlen
    omega
  rw [parse_array, hopen]
  dsimp only
  rw [if_neg (fun h => h rfl)]
  by_cases hne : items = []
  · subst hne
    obtain ⟨hskip, hclose⟩ := skip_blank h (by decide) hdrop
    rw [hskip, if_pos (getElem?_of_drop hclose)]
  · obtain ⟨w, c, t, rfl, hw, hc, hlt⟩ := head_items hne h
    have hinner := hdrop
    rw [List.append_assoc, List.cons_append] at hinner
    obtain ⟨hskip, hfirst⟩ := skip_blank hw hlt hinner
    have hget := getElem?_of_drop hfirst
    rw [hskip, hget, if_neg (fun h => hc (Option.some.inj h)), if_neg (lt_of_getElem? hget),
      parse_elements_skip hw hlt hinner, parse_elements_text hne hread h hdrop hfuel, Access.ok_bind]

theorem parse_object_text {members : List (StdString × Item)}
    (hread : ∀ member ∈ members, ReadsText content parse_value member.2)
    (h : IsMembers IsNumberText IsStringText members inner)
    (hcontent : content.drop offset = 123 :: (inner ++ 125 :: rest)) :
    parse_object content parse_value offset = .ok (.object members, offset + 1 + inner.length + 1) := by
  have hopen := getElem?_of_drop hcontent
  have hdrop : content.drop (offset + 1) = inner ++ 125 :: rest := by
    rw [← List.drop_drop, hcontent]
    rfl
  have hfuel : inner.length < content.length := by
    have hlen := congrArg List.length hdrop
    rw [List.length_drop, List.length_append, List.length_cons] at hlen
    omega
  rw [parse_object, hopen, if_neg (fun h => h rfl)]
  dsimp only
  by_cases hne : members = []
  · subst hne
    obtain ⟨hskip, hclose⟩ := skip_blank h (by decide) hdrop
    rw [hskip, if_pos (getElem?_of_drop hclose)]
  · obtain ⟨w, t, rfl, hw⟩ := head_members hne h
    have hinner := hdrop
    rw [List.append_assoc, List.cons_append] at hinner
    obtain ⟨hskip, hfirst⟩ := skip_blank hw (by decide) hinner
    have hget := getElem?_of_drop hfirst
    rw [hskip, hget, if_neg (by decide), if_neg (lt_of_getElem? hget),
      parse_members_skip hw (by decide) hinner, parse_members_text hne hread h hdrop hfuel,
      Access.ok_bind]

end Elements

/-- Every text of an item that is nested no deeper than the levels left is read. -/
theorem parse_value_text {levels : Nat} {item : Item} (hdepth : item.depth ≤ levels) :
    ReadsText content (parse_value content levels) item := by
  induction levels generalizing item with
  | zero =>
    intro text rest offset h hcontent hrest
    cases item with
    | null => exact parse_with_literal (.inl ⟨rfl, h⟩) hcontent
    | bool b => exact parse_with_literal (.inr ⟨b, rfl, h⟩) hcontent
    | number d => exact parse_with_number h hcontent hrest
    | string s => exact parse_with_string h hcontent
    | array items => exact absurd hdepth (Nat.not_succ_le_zero _)
    | object members => exact absurd hdepth (Nat.not_succ_le_zero _)
  | succ levels ih =>
    intro text rest offset h hcontent hrest
    cases item with
    | null => exact parse_with_literal (.inl ⟨rfl, h⟩) hcontent
    | bool b => exact parse_with_literal (.inr ⟨b, rfl, h⟩) hcontent
    | number d => exact parse_with_number h hcontent hrest
    | string s => exact parse_with_string h hcontent
    | array items =>
      obtain ⟨inner, rfl, hitems⟩ := h
      have hread : ∀ item ∈ items, ReadsText content (parse_value content levels) item := fun item hitem =>
        ih (Nat.le_trans (Doc.depth_le_depthItems hitem) (Nat.le_of_succ_le_succ hdepth))
      rw [List.cons_append, List.append_assoc, List.singleton_append] at hcontent
      rw [parse_value, parse_with_array hcontent, parse_array_text hread hitems hcontent,
        List.length_cons, List.length_append, List.length_singleton]
      congr 2
      omega
    | object members =>
      obtain ⟨inner, rfl, hmembers⟩ := h
      have hread : ∀ member ∈ members, ReadsText content (parse_value content levels) member.2 :=
        fun member hmember =>
          ih (Nat.le_trans (Doc.depth_le_depthMembers hmember) (Nat.le_of_succ_le_succ hdepth))
      rw [List.cons_append, List.append_assoc, List.singleton_append] at hcontent
      rw [parse_value, parse_with_object hcontent, parse_object_text hread hmembers hcontent,
        List.length_cons, List.length_append, List.length_singleton]
      congr 2
      omega

end Complete

/-! ### Whole texts -/

section Whole
variable {item : Item} {text : List UInt8} {content : List UInt8} {offset : Nat}

/-- Behind the white space at the end stands the zero. -/
theorem skip_end {w : List UInt8} (hw : Blank w) (hcontent : content.drop offset = w ++ [0]) :
    content[buffer_skip_whitespace content offset]? = some 0 := by
  have hblank : ∀ d ∈ w ++ [0], (decide (d ≤ 32)) = true := by
    intro d hd
    rcases List.mem_append.mp hd with hd | hd
    · rcases hw d hd with rfl | rfl | rfl | rfl <;> decide
    · rw [List.mem_singleton.mp hd]
      decide
  have hlen := congrArg List.length hcontent
  rw [List.length_drop, List.length_append, List.length_singleton] at hlen
  have hend : offset + (w.length + 1) = content.length := by omega
  have hlast : offset + (w.length + 1) - 1 = offset + w.length := by omega
  unfold buffer_skip_whitespace
  dsimp only
  rw [hcontent, List.takeWhile_eq_self_iff.mpr hblank, List.length_append, List.length_singleton,
    if_pos hend, hlast]
  exact getElem?_of_drop (drop_append hcontent)

/-- A byte order mark in front of the text -/
def bom : List UInt8 := [0xEF, 0xBB, 0xBF]

theorem skip_utf8_bom_bom {t : List UInt8} (ht : 2 ≤ t.length) : skip_utf8_bom (bom ++ t) = 3 := by
  have hlen : 4 < (bom ++ t).length := by
    rw [List.length_append]
    exact Nat.add_lt_add_left (n := 1) ht 3
  exact if_pos ⟨hlen, rfl⟩

theorem skip_utf8_bom_none {c : UInt8} {t : List UInt8} (hc : c ≠ 0xEF) : skip_utf8_bom (c :: t) = 0 := by
  refine if_neg ?_
  rintro ⟨-, h⟩
  exact hc (List.cons.inj h).1

theorem ends_end {w : List UInt8} (hw : Blank w) : Ends (w ++ [0]) := ends_blank hw rfl

/-- Where the value starts, behind a byte order mark and white space. -/
theorem text_start {value : StdString} (htext : Around (IsText IsNumberText IsStringText item) text)
    (hvalue : cString value = text ∨ cString value = bom ++ text) (hcontent : content = cString value ++ [0]) :
    ∃ t w, IsText IsNumberText IsStringText item t ∧ Blank w ∧
      content.drop (buffer_skip_whitespace content (skip_utf8_bom content)) = t ++ (w ++ [0]) := by
  obtain ⟨w, t, w', rfl, hw, ht, hw'⟩ := htext
  obtain ⟨c, s, rfl, -, hbom, hlt⟩ := head_text ht
  have hstart : content.drop (skip_utf8_bom content) = w ++ c :: (s ++ (w' ++ [0])) := by
    rcases hvalue with hvalue | hvalue
    · have hskip : skip_utf8_bom content = 0 := by
        rw [hcontent, hvalue]
        cases w with
        | nil => exact skip_utf8_bom_none hbom
        | cons d w =>
          refine skip_utf8_bom_none ?_
          rcases hw d List.mem_cons_self with rfl | rfl | rfl | rfl <;> decide
      rw [hskip, hcontent, hvalue]
      simp
    · have hskip : skip_utf8_bom content = 3 := by
        rw [hcontent, hvalue, List.append_assoc]
        refine skip_utf8_bom_bom ?_
        simp only [List.length_append, List.length_cons]
        omega
      rw [hskip, hcontent, hvalue, bom]
      simp
  obtain ⟨hskip, hfirst⟩ := skip_blank hw hlt hstart
  exact ⟨c :: s, w', ht, hw', by rw [hskip, hfirst, List.cons_append]⟩

/-- Every JSON text is read, with or without a byte order mark, up to the zero that ends it. -/
theorem parse_text {value : StdString} {require_null_terminated : Bool}
    (hdepth : item.depth ≤ CJSON_NESTING_LIMIT) (htext : Around (IsText IsNumberText IsStringText item) text)
    (hvalue : cString value = text ∨ cString value = bom ++ text) :
    cJSON_ParseWithOpts value require_null_terminated = .ok item := by
  obtain ⟨t, w, ht, hw, hdrop⟩ := text_start htext hvalue rfl
  have hread := parse_value_text hdepth ht hdrop (ends_end hw)
  rw [cJSON_ParseWithOpts, hread, Access.ok_bind, if_pos (skip_end hw (drop_append hdrop)), ite_self]

end Whole

/-! ### The nesting limit -/

section Limit
variable {content : List UInt8}

theorem parse_with_ok {array array' object object' : Nat → Access (Item × Nat)} {offset : Nat} {r : Item × Nat}
    (harray : ∀ {offset r}, array offset = .ok r → array' offset = .ok r)
    (hobject : ∀ {offset r}, object offset = .ok r → object' offset = .ok r)
    (h : parse_with content array object offset = .ok r) : parse_with content array' object' offset = .ok r := by
  unfold parse_with at h ⊢
  dsimp only at h ⊢
  split
  · rwa [if_pos ‹_›] at h
  rw [if_neg ‹_›] at h
  split
  · rwa [if_pos ‹_›] at h
  rw [if_neg ‹_›] at h
  split
  · rwa [if_pos ‹_›] at h
  rw [if_neg ‹_›] at h
  cases htext : content.drop offset with
  | nil =>
    rw [htext] at h
    exact h
  | cons c t =>
    rw [htext] at h
    dsimp only at h ⊢
    split
    · rwa [if_pos ‹_›] at h
    rw [if_neg ‹_›] at h
    split
    · rwa [if_pos ‹_›] at h
    rw [if_neg ‹_›] at h
    split
    · rw [if_pos ‹_›] at h
      exact harray h
    rw [if_neg ‹_›] at h
    split
    · rw [if_pos ‹_›] at h
      exact hobject h
    · rwa [if_neg ‹_›] at h

variable {parse_value parse_value' : Nat → Access (Item × Nat)}
  (hvalue : ∀ {offset r}, parse_value offset = .ok r → parse_value' offset = .ok r)

include hvalue

theorem parse_elements_ok {fuel offset : Nat} {r : List Item × Nat}
    (h : parse_elements content parse_value fuel offset = .ok r) :
    parse_elements content parse_value' fuel offset = .ok r := by
  induction fuel generalizing offset r with
  | zero => cases h
  | succ fuel ih =>
    rw [parse_elements] at h ⊢
    obtain ⟨value, hv, h⟩ := Access.bind_eq_ok h
    rw [hvalue hv, Access.ok_bind]
    dsimp only at h ⊢
    split
    · rw [if_pos ‹_›] at h
      obtain ⟨rest, hrest, h⟩ := Access.bind_eq_ok h
      rw [ih hrest, Access.ok_bind]
      exact h
    · rwa [if_neg ‹_›] at h

theorem parse_members_ok {fuel offset : Nat} {r : List (StdString × Item) × Nat}
    (h : parse_members content parse_value fuel offset = .ok r) :
    parse_members content parse_value' fuel offset = .ok r := by
  induction fuel generalizing offset r with
  | zero => cases h
  | succ fuel ih =>
    rw [parse_members] at h ⊢
    dsimp only at h ⊢
    obtain ⟨name, hname, h⟩ := Access.bind_eq_ok h
    rw [hname, Access.ok_bind]
    split
    · rwa [if_pos ‹_›] at h
    rw [if_neg ‹_›] at h
    obtain ⟨value, hv, h⟩ := Access.bind_eq_ok h
    rw [hvalue hv, Access.ok_bind]
    split
    · rw [if_pos ‹_›] at h
      obtain ⟨rest, hrest, h⟩ := Access.bind_eq_ok h
      rw [ih hrest, Access.ok_bind]
      exact h
    · rwa [if_neg ‹_›] at h

theorem parse_array_ok {offset : Nat} {r : Item × Nat} (h : parse_array content parse_value offset = .ok r) :
    parse_array content parse_value' offset = .ok r := by
  unfold parse_array at h ⊢
  cases hc : content[offset]? with
  | none =>
    rw [hc] at h
    exact h
  | some c =>
    rw [hc] at h
    dsimp only at h ⊢
    split
    · rwa [if_pos ‹_›] at h
    rw [if_neg ‹_›] at h
    split
    · rwa [if_pos ‹_›] at h
    rw [if_neg ‹_›] at h
    split
    · rwa [if_pos ‹_›] at h
    rw [if_neg ‹_›] at h
    obtain ⟨elements, helements, h⟩ := Access.bind_eq_ok h
    rw [parse_elements_ok hvalue helements, Access.ok_bind]
    exact h

theorem parse_object_ok {offset : Nat} {r : Item × Nat} (h : parse_object content parse_value offset = .ok r) :
    parse_object content parse_value' offset = .ok r := by
  unfold parse_object at h ⊢
  dsimp only at h ⊢
  split
  · rwa [if_pos ‹_›] at h
  rw [if_neg ‹_›] at h
  split
  · rwa [if_pos ‹_›] at h
  rw [if_neg ‹_›] at h
  split
  · rwa [if_pos ‹_›] at h
  rw [if_neg ‹_›] at h
  obtain ⟨members, hmembers, h⟩ := Access.bind_eq_ok h
  rw [parse_members_ok hvalue hmembers, Access.ok_bind]
  exact h

end Limit

/-- More levels do not change what is read. -/
theorem parse_value_levels {content : List UInt8} {levels levels' offset : Nat} {r : Item × Nat}
    (hle : levels ≤ levels') (h : parse_value content levels offset = .ok r) :
    parse_value content levels' offset = .ok r := by
  induction levels generalizing levels' offset r with
  | zero =>
    cases levels' with
    | zero => exact h
    | succ levels' =>
      have hfailed {array : Nat → Access (Item × Nat)} {offset : Nat} {r : Item × Nat}
          (h : Access.failed = .ok r) : array offset = .ok r := nomatch h
      exact parse_with_ok hfailed hfailed h
  | succ levels ih =>
    cases levels' with
    | zero => exact absurd hle (Nat.not_succ_le_zero levels)
    | succ levels' =>
      have hvalue {offset : Nat} {r : Item × Nat} (h : parse_value content levels offset = .ok r) :
          parse_value content levels' offset = .ok r := ih (Nat.le_of_succ_le_succ hle) h
      exact parse_with_ok (parse_array_ok hvalue) (parse_object_ok hvalue) h

theorem parse_text_deep {item : Item} {text : List UInt8} {value : StdString} {require_null_terminated : Bool}
    (hdepth : CJSON_NESTING_LIMIT < item.depth)
    (htext : Around (IsText IsNumberText IsStringText item) text)
    (hvalue : cString value = text ∨ cString value = bom ++ text) :
    cJSON_ParseWithOpts value require_null_terminated = .failed := by
  obtain ⟨t, w, ht, hw, hdrop⟩ := text_start htext hvalue rfl
  have hread := parse_value_text (Nat.le_refl _) ht hdrop (ends_end hw)
  have hlast : (cString value ++ [0]).getLast? = some 0 := List.getLast?_concat
  have hensures := parse_value_ensures hlast CJSON_NESTING_LIMIT
    (buffer_skip_whitespace (cString value ++ [0]) (skip_utf8_bom (cString value ++ [0])))
  rw [cJSON_ParseWithOpts]
  cases hparse : parse_value (cString value ++ [0]) CJSON_NESTING_LIMIT
    (buffer_skip_whitespace (cString value ++ [0]) (skip_utf8_bom (cString value ++ [0]))) with
  | outside => exact absurd hparse hensures.ne_outside
  | failed => rfl
  | ok r =>
    -- with more levels it would be the item itself, which is too deep
    have heq := (parse_value_levels (Nat.le_of_lt hdepth) hparse).symm.trans hread
    cases heq
    exact absurd (hensures.of_ok hparse).holds.depth (Nat.not_le.mpr hdepth)

/-- A JSON text is read as the item it stands for, unless this is nested too deeply. -/
theorem cJSON_ParseWithOpts_text {item : Item} {text : List UInt8} {value : StdString}
    (require_null_terminated : Bool) (htext : Around (IsText IsNumberText IsStringText item) text)
    (hvalue : cString value = text ∨ cString value = bom ++ text) :
    cJSON_ParseWithOpts value require_null_terminated =
      if item.depth ≤ CJSON_NESTING_LIMIT then .ok item else .failed := by
  split
  · exact parse_text ‹_› htext hvalue
  · exact parse_text_deep (Nat.not_le.mp ‹_›) htext hvalue

theorem cJSON_ParseWithOpts_text_array :
    cJSON_ParseWithOpts (bom ++ ascii "[\"a\"]" ++ [0, 7]) true =
      if (Doc.array [.string (ascii "a")] : Item).depth ≤ CJSON_NESTING_LIMIT then
        .ok (.array [.string (ascii "a")]) else .failed :=
  cJSON_ParseWithOpts_text true
    (around_self ⟨ascii "\"a\"", rfl, around_self
      ⟨ascii "a", ascii "a", rfl, .plain (by decide) .nil, rfl⟩⟩) (.inr rfl)

end Hardcoder.cJSON
