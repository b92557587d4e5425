import Hardcoder.CJsonBuffer
import Hardcoder.CJsonText

/-! What `cJSON_Parse` makes of the text of `cJSON_Print`. -/

namespace Hardcoder.cJSON
open JsonText Strtol Strtod
set_option autoImplicit false

mutual

/-- The item with null for its infinite numbers. -/
def nulled : Item → Item
  | .number (.infinite _) => .null
  | .array items => .array (nulledItems items)
  | .object members => .object (nulledMembers members)
  | item => item

def nulledItems : List Item → List Item
  | [] => []
  | item :: items => nulled item :: nulledItems items

def nulledMembers : List (StdString × Item) → List (StdString × Item)
  | [] => []
  | (name, item) :: members => (name, nulled item) :: nulledMembers members

end

/-- All numbers are finite and all strings clean. -/
def Printable (item : Item) : Prop := item.All (fun d => d.isFinite = true) Clean

section Nulled

mutual

theorem depth_nulled : ∀ item : Item, (nulled item).depth = item.depth
  | .null => rfl
  | .bool _ => rfl
  | .number (.zero _) => rfl
  | .number (.finite _ _ _) => rfl
  | .number (.infinite _) => rfl
  | .string _ => rfl
  | .array items => congrArg (· + 1) (depth_nulledItems items)
  | .object members => congrArg (· + 1) (depth_nulledMembers members)

theorem depth_nulledItems : ∀ items : List Item, Doc.depthItems (nulledItems items) = Doc.depthItems items
  | [] => rfl
  | item :: items => congrArg₂ max (depth_nulled item) (depth_nulledItems items)

theorem depth_nulledMembers :
    ∀ members : List (StdString × Item), Doc.depthMembers (nulledMembers members) = Doc.depthMembers members
  | [] => rfl
  | (_, item) :: members => congrArg₂ max (depth_nulled item) (depth_nulledMembers members)

end

mutual

theorem nulled_eq_self : ∀ {item : Item}, item.All (fun d => d.isFinite = true) Clean → nulled item = item
  | .null, _ => rfl
  | .bool _, _ => rfl
  | .number (.zero _), _ => rfl
  | .number (.finite _ _ _), _ => rfl
  | .number (.infinite _), h => absurd h Bool.false_ne_true
  | .string _, _ => rfl
  | .array _, h => congrArg Doc.array (nulledItems_eq_self h)
  | .object _, h => congrArg Doc.object (nulledMembers_eq_self h)

theorem nulledItems_eq_self :
    ∀ {items : List Item}, Doc.AllItems (fun d => d.isFinite = true) Clean items → nulledItems items = items
  | [], _ => rfl
  | _ :: _, h => congrArg₂ List.cons (nulled_eq_self h.1) (nulledItems_eq_self h.2)

theorem nulledMembers_eq_self : ∀ {members : List (StdString × Item)},
    Doc.AllMembers (fun d => d.isFinite = true) Clean members → nulledMembers members = members
  | [], _ => rfl
  | (name, _) :: _, h =>
    congrArg₂ List.cons (congrArg (Prod.mk name) (nulled_eq_self h.2.1)) (nulledMembers_eq_self h.2.2)

end

mutual

theorem printable_of_nulled : ∀ {item : Item}, item.All (fun _ => True) Clean → nulled item = item → Printable item
  | .null, _, _ => trivial
  | .bool _, _, _ => trivial
  | .number (.zero _), _, _ => rfl
  | .number (.finite _ _ _), _, _ => rfl
  | .number (.infinite _), _, h => nomatch h
  | .string _, hclean, _ => hclean
  | .array _, hclean, h => printableItems_of_nulled hclean (Doc.array.inj h)
  | .object _, hclean, h => printableMembers_of_nulled hclean (Doc.object.inj h)

theorem printableItems_of_nulled : ∀ {items : List Item}, Doc.AllItems (fun _ => True) Clean items →
    nulledItems items = items → Doc.AllItems (fun d => d.isFinite = true) Clean items
  | [], _, _ => trivial
  | _ :: _, hclean, h =>
    ⟨printable_of_nulled hclean.1 (List.cons.inj h).1, printableItems_of_nulled hclean.2 (List.cons.inj h).2⟩

theorem printableMembers_of_nulled : ∀ {members : List (StdString × Item)},
    Doc.AllMembers (fun _ => True) Clean members → nulledMembers members = members →
      Doc.AllMembers (fun d => d.isFinite = true) Clean members
  | [], _, _ => trivial
  | (_, _) :: _, hclean, h =>
    ⟨hclean.1, printable_of_nulled hclean.2.1 (Prod.mk.inj (List.cons.inj h).1).2,
      printableMembers_of_nulled hclean.2.2 (List.cons.inj h).2⟩

end

end Nulled

/-! ### The text is JSON -/

section Text
variable (format : Bool)

theorem blank_tabs (depth : Nat) :
    Blank (if format then List.replicate depth (9 : UInt8) else []) := by
  cases format with
  | true => exact fun c hc => .inr (.inl (List.eq_of_mem_replicate hc))
  | false => exact blank_nil

theorem blank_newline : Blank (if format then [(10 : UInt8)] else []) := by
  cases format with
  | true => exact fun c hc => .inr (.inr (.inl (List.mem_singleton.mp hc)))
  | false => exact blank_nil

theorem blank_space : Blank (if format then [(32 : UInt8)] else []) := by
  cases format with
  | true => exact fun c hc => .inl (List.mem_singleton.mp hc)
  | false => exact blank_nil

/-- A name, indented, and a value. -/
theorem pair_printed {name : StdString} {item : Item} {text w : List UInt8} (depth : Nat) (hname : Clean name)
    (htext : IsText IsNumberText IsStringText item text) (hw : Blank w) :
    Pair (IsStringText name) (IsText IsNumberText IsStringText item)
      ((if format then List.replicate depth 9 else []) ++
        (printedString name ++ ((if format then [58, 9] else [58]) ++ (text ++ w)))) := by
  refine ⟨(if format then List.replicate depth 9 else []) ++ printedString name,
    (if format then [9] else []) ++ (text ++ w), ?_,
    (around_self (isStringText_printed hname)).append_left (blank_tabs format depth),
    ((around_self htext).append_right hw).append_left ?_⟩
  · cases format with
    | true => simp only [List.append_assoc, if_true, List.cons_append, List.nil_append]
    | false => simp only [Bool.false_eq_true, if_false, List.cons_append, List.nil_append]
  · exact blank_tabs format 1

mutual

theorem isText_printed : ∀ {item : Item} (depth : Nat), item.All (fun _ => True) Clean →
    IsText IsNumberText IsStringText (nulled item) (printedText format depth item)
  | .null, _, _ => rfl
  | .bool _, _, _ => rfl
  | .number (.zero _), _, _ => isNumberText_buffer rfl
  | .number (.finite _ _ _), _, _ => isNumberText_buffer rfl
  | .number (.infinite _), _, _ => rfl
  | .string _, _, h => isStringText_printed h
  | .array items, depth, h => ⟨printedElements format (depth + 1) items, rfl, isItems_printed (depth + 1) h⟩
  | .object members, depth, h => by
    have hmembers := isMembers_printed (depth + 1) h (blank_tabs format depth)
    refine ⟨(if format then [10] else []) ++ (printedMembers format (depth + 1) members ++
      (if format then List.replicate depth 9 else [])), ?_, hmembers.append_left (blank_newline format)⟩
    rw [printedText]
    cases format with
    | true => simp only [List.append_assoc, if_true, List.cons_append, List.nil_append]
    | false => simp only [List.append_assoc, Bool.false_eq_true, if_false, List.cons_append, List.nil_append]

theorem isItems_printed : ∀ {items : List Item} (depth : Nat), Doc.AllItems (fun _ => True) Clean items →
    IsItems IsNumberText IsStringText (nulledItems items) (printedElements format depth items)
  | [], _, _ => blank_nil
  | [item], depth, h => by
    rw [printedElements]
    exact (List.append_nil _).symm ▸ around_self (isText_printed depth h.1)
  | item :: item' :: items, depth, h => by
    have hitems := isItems_printed depth h.2
    refine ⟨printedText format depth item, (if format then [32] else []) ++
      printedElements format depth (item' :: items), ?_, around_self (isText_printed depth h.1),
      hitems.append_left (blank_space format)⟩
    rw [printedElements]
    cases format <;> rfl

theorem isMembers_printed : ∀ {members : List (StdString × Item)} (depth : Nat) {w : List UInt8},
    Doc.AllMembers (fun _ => True) Clean members → Blank w →
    IsMembers IsNumberText IsStringText (nulledMembers members) (printedMembers format depth members ++ w)
  | [], _, _, _, hw => hw
  | [(name, item)], depth, w, h, hw => by
    have hpair := pair_printed format depth h.1 (isText_printed depth h.2.1)
      ((blank_newline format).append hw)
    have hshape : printedMembers format depth [(name, item)] ++ w =
        (if format then List.replicate depth 9 else []) ++ (printedString name ++
          ((if format then [58, 9] else [58]) ++
            (printedText format depth item ++ ((if format then [10] else []) ++ w)))) := by
      rw [printedMembers, printedMembers]
      simp only [List.append_assoc, List.isEmpty_nil, if_true, List.nil_append]
    rw [hshape]
    exact hpair
  | (name, item) :: member' :: members, depth, w, h, hw => by
    have hpair := pair_printed format depth h.1 (isText_printed depth h.2.1)
      blank_nil
    have hmembers := isMembers_printed depth h.2.2 hw
    refine ⟨_, _, ?_, hpair, hmembers.append_left (blank_newline format)⟩
    rw [printedMembers]
    simp only [List.append_assoc, List.append_nil, List.isEmpty_cons, Bool.false_eq_true, if_false,
      List.cons_append, List.nil_append]

end

end Text

section RoundTrip
variable {format : Bool} {item : Item}

theorem cString_printedText (format : Bool) (depth : Nat) (item : Item) :
    cString (printedText format depth item) = printedText format depth item := by
  rw [cString, List.takeWhile_eq_self_iff]
  intro c hc
  rw [decide_eq_true_eq]
  rintro rfl
  exact zero_notMem_printedText item depth hc

/-- The text of an item with clean strings is read as the item, up to its infinite numbers. -/
theorem parse_printed (require_null_terminated : Bool) (hclean : item.All (fun _ => True) Clean)
    (hdepth : item.depth ≤ CJSON_NESTING_LIMIT) :
    cJSON_ParseWithOpts (printedText format 0 item) require_null_terminated = .ok (nulled item) :=
  parse_text (by rwa [depth_nulled]) (around_self (isText_printed format 0 hclean))
    (.inl (cString_printedText format 0 item))

end RoundTrip

/-! ### Strings that are cut -/

section Cut
variable {capacity fuel left : Nat} {input output bytes final : List UInt8} {s : StdString}

theorem put_ok (h : put capacity output bytes = .ok final) : final = output ++ bytes := by
  rw [put] at h
  split at h
  · exact (Access.ok.inj h).symm
  · cases h

/-- What the loop has written stays. -/
theorem unescape_prefix (h : unescape capacity fuel left input output = .ok final) : output <+: final := by
  induction fuel generalizing left input output with
  | zero =>
    cases h
    exact List.prefix_rfl
  | succ fuel ih =>
    rw [unescape.eq_def] at h
    cases left with
    | zero =>
      cases h
      exact List.prefix_rfl
    | succ left =>
      cases input with
      | nil => cases h
      | cons c input =>
        dsimp only at h
        split at h
        · obtain ⟨out, hput, h⟩ := Access.bind_eq_ok h
          obtain rfl := put_ok hput
          exact (List.prefix_append output [c]).trans (ih h)
        cases input with
        | nil => cases h
        | cons e rest =>
          dsimp only at h
          split at h
          · obtain ⟨literal, -, h⟩ := Access.bind_eq_ok h
            obtain ⟨out, hput, h⟩ := Access.bind_eq_ok h
            obtain rfl := put_ok hput
            exact (List.prefix_append output literal.1).trans (ih h)
          · cases hescaped : escaped e with
            | none =>
              rw [hescaped] at h
              cases h
            | some b =>
              rw [hescaped] at h
              obtain ⟨out, hput, h⟩ := Access.bind_eq_ok h
              obtain rfl := put_ok hput
              exact (List.prefix_append output [b]).trans (ih h)

/-- A byte that is no digit makes the sequence one for zero. -/
theorem utf16_cut {c : UInt8} {t : List UInt8} {literal : List UInt8 × Nat} (hc : hexDigit c = none)
    (h : utf16_literal_to_utf8 (92 :: 117 :: 48 :: 48 :: c :: t) left = .ok literal) : literal = ([0], 6) := by
  have hzero : hexDigit 48 = some 0 := rfl
  have hcode : parse_hex4 ((92 :: 117 :: 48 :: 48 :: c :: t).drop 2) = .ok 0 := by
    rw [List.drop_succ_cons, List.drop_succ_cons, List.drop_zero, parse_hex4]
    simp only [hexDigits, hzero, hc]
  rw [utf16_literal_to_utf8] at h
  split at h
  · cases h
  · rw [hcode, Access.ok_bind, if_neg (by decide), if_neg (by decide)] at h
    cases h
    rfl

/-- The text of a string that is cut is read as what stands in front of the character that cuts
it, and a zero, whatever comes next. -/
theorem unescape_cut {c : UInt8} {t : List UInt8} {k : Nat} (hcut : ¬ Clean s)
    (hc : hexDigit c = none) (hend : findEnd (printedChars s ++ c :: t) = some (left, k)) (hfuel : left ≤ fuel)
    (h : unescape capacity fuel left (printedChars s ++ c :: t) output = .ok final) :
    ∃ s' d s'', s = s' ++ d :: s'' ∧ output ++ s' ++ [0] <+: final := by
  induction s generalizing left fuel output k with
  | nil => exact absurd (fun _ h => absurd h List.not_mem_nil) hcut
  | cons d s ih =>
    rw [printedChars] at hend h
    by_cases hplain : isPlain d = true
    · rw [if_pos hplain, List.cons_append] at hend h
      have hcut' : ¬ Clean s := fun hs => hcut (List.forall_mem_cons.mpr ⟨.inl hplain, hs⟩)
      have hfind := @findEnd_append [d] (by simpa using isPlain_ne hplain) (printedChars s ++ c :: t)
      rw [List.singleton_append, hend] at hfind
      obtain ⟨⟨left', k'⟩, hend', heq⟩ := Option.map_eq_some_iff.mp hfind.symm
      cases heq
      obtain ⟨fuel, rfl⟩ := Nat.exists_eq_succ_of_ne_zero (Nat.ne_zero_of_lt hfuel)
      rw [List.length_singleton, unescape.eq_def] at h
      dsimp only at h
      rw [if_pos (isPlain_ne hplain).2] at h
      obtain ⟨out, hput, h⟩ := Access.bind_eq_ok h
      obtain rfl := put_ok hput
      obtain ⟨s', d', s'', rfl, hprefix⟩ := ih hcut' hend' (Nat.le_of_succ_le_succ hfuel) h
      refine ⟨d :: s', d', s'', rfl, ?_⟩
      rwa [List.append_assoc output, List.singleton_append] at hprefix
    · rw [if_neg hplain] at hend h
      cases hshort : shortEscape d with
      | some e =>
        rw [hshort, List.cons_append, List.cons_append] at hend h
        have hcut' : ¬ Clean s := fun hs =>
          hcut (List.forall_mem_cons.mpr ⟨.inr (by rw [hshort]; rfl), hs⟩)
        have hescaped := escaped_shortEscape hshort
        have hu : e ≠ 117 := by
          rintro rfl
          cases hescaped
        rw [findEnd_escape] at hend
        obtain ⟨⟨left', k'⟩, hend', heq⟩ := Option.map_eq_some_iff.mp hend
        cases heq
        obtain ⟨fuel, rfl⟩ := Nat.exists_eq_succ_of_ne_zero (Nat.ne_zero_of_lt hfuel)
        rw [unescape.eq_def] at h
        dsimp only at h
        rw [if_neg (fun h => h rfl), if_neg hu, hescaped] at h
        obtain ⟨out, hput, h⟩ := Access.bind_eq_ok h
        obtain rfl := put_ok hput
        obtain ⟨s', d', s'', rfl, hprefix⟩ := ih hcut' hend' (by omega) h
        refine ⟨d :: s', d', s'', rfl, ?_⟩
        rwa [List.append_assoc output, List.singleton_append] at hprefix
      | none =>
        rw [hshort] at hend h
        refine ⟨[], d, s, rfl, ?_⟩
        have hdigits := @findEnd_append [48, 48] (by simp) (c :: t)
        dsimp only [List.cons_append, List.nil_append] at hend h hdigits
        rw [findEnd_escape, hdigits, Option.map_map] at hend
        obtain ⟨⟨left', k'⟩, -, heq⟩ := Option.map_eq_some_iff.mp hend
        cases heq
        obtain ⟨fuel, rfl⟩ := Nat.exists_eq_succ_of_ne_zero (Nat.ne_zero_of_lt hfuel)
        rw [unescape.eq_def] at h
        dsimp only at h
        rw [if_neg (fun h => h rfl), if_pos rfl] at h
        obtain ⟨literal, hliteral, h⟩ := Access.bind_eq_ok h
        obtain ⟨out, hput, h⟩ := Access.bind_eq_ok h
        obtain rfl := put_ok hput
        rw [utf16_cut hc hliteral] at h
        rw [List.append_nil]
        exact unescape_prefix h

/-- The text of a string that is not clean is read as a shorter one, if it is read. -/
theorem parse_string_cut {c : UInt8} {t s' : List UInt8} {n : Nat} (hc : hexDigit c = none) (hcut : ¬ Clean s)
    (h : parse_string (printedString s ++ c :: t) = .ok (s', n)) : s'.length < s.length := by
  have hcString : (cString s).length ≤ s.length := (List.takeWhile_prefix _).length_le
  by_cases hclean : Clean (cString s)
  · -- what is printed ends at the first zero, and is read up to there
    have htext := isStringText_printed hclean
    have hself : cString (cString s) = cString s := hclean.cString
    rw [printedString, hself, ← printedString] at htext
    have hread := (parse_string_text htext (c :: t)).symm.trans h
    have hs : cString s = s' := congrArg Prod.fst (Access.ok.inj hread)
    have hne : (cString s).length ≠ s.length := fun hlen =>
      hcut ((List.takeWhile_prefix _).eq_of_length hlen ▸ hclean)
    exact hs ▸ Nat.lt_of_le_of_ne hcString hne
  · rw [printedString, List.cons_append, parse_string, if_neg (fun h => h rfl)] at h
    cases hend : findEnd (printedChars (cString s) ++ c :: t) with
    | none =>
      rw [hend] at h
      cases h
    | some r =>
      obtain ⟨length, skipped⟩ := r
      rw [hend] at h
      obtain ⟨final, hloop, h⟩ := Access.bind_eq_ok h
      obtain ⟨output, hput, h⟩ := Access.bind_eq_ok h
      obtain rfl := put_ok hput
      obtain ⟨before, d, after, hs, hprefix⟩ := unescape_cut hclean hc hend (Nat.le_refl _) hloop
      obtain ⟨u, rfl⟩ := hprefix
      have hresult : cString ([] ++ before ++ [0] ++ u ++ [0]) = s' := congrArg Prod.fst (Access.ok.inj h)
      have hzero : ∀ e ∈ before, decide (e ≠ 0) = true := by
        intro e he
        rw [decide_eq_true_eq]
        rintro rfl
        exact zero_notMem_cString s (hs ▸ List.mem_append_left _ he)
      rw [List.nil_append, List.append_assoc, List.append_assoc, cString,
        List.takeWhile_append_of_pos hzero, List.singleton_append, List.takeWhile_cons_of_neg (by decide),
        List.append_nil] at hresult
      have hlen := congrArg List.length hs
      rw [List.length_append, List.length_cons, hresult] at hlen
      omega

end Cut

/-- What is read of an item with strings that are cut: up to the first of them it is the item,
and there a shorter string. -/
inductive Cut : Item → Item → Prop where
  | string {s s' : StdString} (hcut : ¬ Clean s) (hlt : s'.length < s.length) : Cut (.string s) (.string s')
  | element {items : List Item} {item item' : Item} {items' items'' : List Item} (h : Cut item item') :
      Cut (.array (items ++ item :: items')) (.array (nulledItems items ++ item' :: items''))
  | name {members : List (StdString × Item)} {name name' : StdString} {item item' : Item}
      {members' members'' : List (StdString × Item)} (hcut : ¬ Clean name) (hlt : name'.length < name.length) :
      Cut (.object (members ++ (name, item) :: members'))
        (.object (nulledMembers members ++ (name', item') :: members''))
  | member {members : List (StdString × Item)} {name : StdString} {item item' : Item}
      {members' members'' : List (StdString × Item)} (h : Cut item item') :
      Cut (.object (members ++ (name, item) :: members'))
        (.object (nulledMembers members ++ (name, item') :: members''))

theorem length_nulledItems (items : List Item) : (nulledItems items).length = items.length := by
  induction items with
  | nil => rfl
  | cons item items ih => rw [nulledItems, List.length_cons, List.length_cons, ih]

theorem length_nulledMembers (members : List (StdString × Item)) :
    (nulledMembers members).length = members.length := by
  induction members with
  | nil => rfl
  | cons member members ih => rw [nulledMembers, List.length_cons, List.length_cons, ih]

theorem Cut.ne {item item' : Item} (h : Cut item item') : item ≠ item' := by
  induction h with
  | string hcut hlt =>
    intro heq
    cases heq
    exact absurd hlt (Nat.lt_irrefl _)
  | @element items item item' items' items'' _ ih =>
    intro heq
    obtain ⟨-, heq⟩ := List.append_inj (Doc.array.inj heq) (length_nulledItems items).symm
    exact ih (List.cons.inj heq).1
  | @name members name name' item item' members' members'' hcut hlt =>
    intro heq
    obtain ⟨-, heq⟩ := List.append_inj (Doc.object.inj heq) (length_nulledMembers members).symm
    obtain rfl := (Prod.mk.inj (List.cons.inj heq).1).1
    exact absurd hlt (Nat.lt_irrefl _)
  | @member members name item item' members' members'' _ ih =>
    intro heq
    obtain ⟨-, heq⟩ := List.append_inj (Doc.object.inj heq) (length_nulledMembers members).symm
    exact ih (Prod.mk.inj (List.cons.inj heq).1).2

/-- Something was cut. -/
theorem Cut.not_clean {item item' : Item} (h : Cut item item') : ¬ item.All (fun _ => True) Clean := by
  induction h with
  | string hcut hlt => exact hcut
  | element _ ih => exact fun hall => ih (Doc.allItems_append.mp hall).2.1
  | name hcut hlt => exact fun hall => hcut (Doc.allMembers_append.mp hall).2.1
  | member _ ih => exact fun hall => ih (Doc.allMembers_append.mp hall).2.2.1

/-! ### What comes back -/

section Converse
variable {format : Bool} {content : List UInt8} {pv : Nat → Access (Item × Nat)} {fuel offset e : Nat}

theorem parse_elements_cases {items : List Item} (h : parse_elements content pv fuel offset = .ok (items, e)) :
    ∃ item e', pv (buffer_skip_whitespace content (offset + 1)) = .ok (item, e') ∧
      ((∃ fuel' items', content[buffer_skip_whitespace content e']? = some 44 ∧ items = item :: items' ∧
        parse_elements content pv fuel' (buffer_skip_whitespace content e') = .ok (items', e)) ∨
      content[buffer_skip_whitespace content e']? ≠ some 44 ∧ items = [item]) := by
  cases fuel with
  | zero => cases h
  | succ fuel =>
    rw [parse_elements] at h
    obtain ⟨⟨item, e'⟩, hvalue, h⟩ := Access.bind_eq_ok h
    refine ⟨item, e', hvalue, ?_⟩
    dsimp only at h
    split at h
    · obtain ⟨⟨items', e''⟩, hrest, h⟩ := Access.bind_eq_ok h
      cases h
      exact .inl ⟨fuel, items', ‹_›, rfl, hrest⟩
    split at h
    · cases h
      exact .inr ⟨‹_›, rfl⟩
    · cases h

theorem parse_members_cases {members : List (StdString × Item)}
    (h : parse_members content pv fuel offset = .ok (members, e)) :
    ∃ name n item e', parse_string (content.drop (buffer_skip_whitespace content (offset + 1))) = .ok (name, n) ∧
      pv (buffer_skip_whitespace content (buffer_skip_whitespace content
        (buffer_skip_whitespace content (offset + 1) + n) + 1)) = .ok (item, e') ∧
      ((∃ fuel' members', content[buffer_skip_whitespace content e']? = some 44 ∧
        members = (name, item) :: members' ∧
        parse_members content pv fuel' (buffer_skip_whitespace content e') = .ok (members', e)) ∨
      content[buffer_skip_whitespace content e']? ≠ some 44 ∧ members = [(name, item)]) := by
  cases fuel with
  | zero => cases h
  | succ fuel =>
    rw [parse_members] at h
    obtain ⟨⟨name, n⟩, hname, h⟩ := Access.bind_eq_ok h
    dsimp only at h
    split at h
    · cases h
    obtain ⟨⟨item, e'⟩, hvalue, h⟩ := Access.bind_eq_ok h
    refine ⟨name, n, item, e', hname, hvalue, ?_⟩
    dsimp only at h
    split at h
    · obtain ⟨⟨members', e''⟩, hrest, h⟩ := Access.bind_eq_ok h
      cases h
      exact .inl ⟨fuel, members', ‹_›, rfl, hrest⟩
    split at h
    · cases h
      exact .inr ⟨‹_›, rfl⟩
    · cases h

/-- What follows a value or a name: neither a digit of any kind nor another byte of a number. -/
def Closes (rest : List UInt8) : Prop :=
  ∃ c t, rest = c :: t ∧ hexDigit c = none ∧ isNumberByte c = false

theorem Closes.ends {rest : List UInt8} (h : Closes rest) : Ends rest := by
  obtain ⟨c, t, rfl, -, hc⟩ := h
  exact ends_cons hc

theorem head_printed (format : Bool) (depth : Nat) (item : Item) :
    ∃ c t, printedText format depth item = c :: t ∧ c ≠ 0xEF ∧ c ≠ 93 ∧ 32 < c := by
  cases item with
  | null => exact ⟨_, _, rfl, by decide⟩
  | bool b => cases b <;> exact ⟨_, _, rfl, by decide⟩
  | number d =>
    cases hfinite : d.isFinite with
    | true =>
      obtain ⟨c, t, htext, hc⟩ := head_number (isNumberText_buffer hfinite)
      obtain ⟨-, -, -, -, hbracket, hbom, hgraphic⟩ := digit_ne hc
      exact ⟨c, t, htext, hbom, hbracket, hgraphic⟩
    | false =>
      refine ⟨110, ascii "ull", ?_, by decide⟩
      rw [printedText, number_buffer, hfinite]
      rfl
  | string s => exact ⟨34, printedChars (cString s), rfl, by decide⟩
  | array items => exact ⟨91, _, rfl, by decide⟩
  | object members =>
    refine ⟨123, (if format then [10] else []) ++ (printedMembers format (depth + 1) members ++
      ((if format then List.replicate depth 9 else []) ++ [125])), ?_, by decide⟩
    rw [printedText]
    cases format <;> rfl

/-- An item with clean strings is read up to the end of its text. -/
theorem parse_value_clean {item parsed : Item} {depth levels : Nat} {rest : List UInt8}
    (hclean : item.All (fun _ => True) Clean)
    (hcontent : content.drop offset = printedText format depth item ++ rest) (hrest : Closes rest)
    (h : parse_value content levels offset = .ok (parsed, e)) :
    parsed = nulled item ∧ e = offset + (printedText format depth item).length := by
  have hread := parse_value_text (Nat.le_max_right levels (nulled item).depth)
    (isText_printed format depth hclean) hcontent hrest.ends
  have hmore := parse_value_levels (Nat.le_max_left levels (nulled item).depth) h
  exact Prod.mk.inj (Access.ok.inj (hmore.symm.trans hread))

theorem head_elements (format : Bool) (depth : Nat) (item : Item) (items : List Item) :
    ∃ c t, printedElements format depth (item :: items) = c :: t ∧ c ≠ 93 ∧ 32 < c := by
  obtain ⟨c, t, htext, -, hc⟩ := head_printed format depth item
  rw [printedElements, htext, List.cons_append]
  exact ⟨c, _, rfl, hc⟩

theorem closes_tabs (format : Bool) (depth : Nat) (rest : List UInt8) :
    Closes ((if format then List.replicate depth 9 else []) ++ 125 :: rest) := by
  cases format with
  | false => exact ⟨125, rest, rfl, rfl, rfl⟩
  | true =>
    cases depth with
    | zero => exact ⟨125, rest, rfl, rfl, rfl⟩
    | succ depth => exact ⟨9, _, rfl, rfl, rfl⟩

theorem skip_printed {item : Item} {depth : Nat} {w tail : List UInt8} (hw : Blank w)
    (hcontent : content.drop offset = w ++ (printedText format depth item ++ tail)) :
    buffer_skip_whitespace content offset = offset + w.length ∧
      content.drop (offset + w.length) = printedText format depth item ++ tail := by
  obtain ⟨c, t, htext, -, -, hc⟩ := head_printed format depth item
  rw [htext] at hcontent ⊢
  exact skip_blank hw hc hcontent

/-- An array that has elements is read with a level less, element by element. -/
theorem parse_value_array {parsed : Item} {levels : Nat} {c : UInt8} {t : List UInt8}
    (hcontent : content.drop offset = 91 :: c :: t) (hc : c ≠ 93) (hgraphic : 32 < c)
    (h : parse_value content levels offset = .ok (parsed, e)) :
    ∃ levels' items fuel e', parsed = .array items ∧
      parse_elements content (parse_value content levels') fuel offset = .ok (items, e') := by
  have hfirst : content.drop (offset + 1) = [] ++ c :: t := by
    rw [← List.drop_drop, hcontent]
    rfl
  obtain ⟨hskip, hdrop⟩ := skip_blank blank_nil hgraphic hfirst
  cases levels with
  | zero =>
    rw [parse_value, parse_with_cons hcontent (by decide) (by decide) (by decide), if_neg (by decide),
      if_neg (by decide), if_pos rfl] at h
    cases h
  | succ levels =>
    rw [parse_value, parse_with_array hcontent, parse_array, getElem?_of_drop hcontent] at h
    dsimp only at h
    rw [if_neg (fun h => h rfl), hskip, getElem?_of_drop hdrop, if_neg fun heq => hc (Option.some.inj heq)] at h
    split at h
    · cases h
    · obtain ⟨⟨items, e'⟩, helements, h⟩ := Access.bind_eq_ok h
      cases h
      rw [parse_elements_skip blank_nil hgraphic hfirst] at helements
      exact ⟨levels, items, _, _, rfl, helements⟩

theorem parse_value_object {parsed : Item} {levels : Nat} {w t : List UInt8} (hw : Blank w)
    (hcontent : content.drop offset = 123 :: (w ++ 34 :: t))
    (h : parse_value content levels offset = .ok (parsed, e)) :
    ∃ levels' members fuel e', parsed = .object members ∧
      parse_members content (parse_value content levels') fuel offset = .ok (members, e') := by
  have hfirst : content.drop (offset + 1) = w ++ 34 :: t := by
    rw [← List.drop_drop, hcontent]
    rfl
  obtain ⟨hskip, hdrop⟩ := skip_blank hw (by decide) hfirst
  cases levels with
  | zero =>
    rw [parse_value, parse_with_cons hcontent (by decide) (by decide) (by decide), if_neg (by decide),
      if_neg (by decide), if_neg (by decide), if_pos rfl] at h
    cases h
  | succ levels =>
    rw [parse_value, parse_with_object hcontent, parse_object, getElem?_of_drop hcontent,
      if_neg (fun h => h rfl)] at h
    dsimp only at h
    rw [hskip, getElem?_of_drop hdrop, if_neg (by decide)] at h
    split at h
    · cases h
    · obtain ⟨⟨members, e'⟩, hmembers, h⟩ := Access.bind_eq_ok h
      cases h
      rw [parse_members_skip hw (by decide) hfirst] at hmembers
      exact ⟨levels, members, _, _, rfl, hmembers⟩

mutual

/-- What is read from the text of an item, if its strings are not all clean. -/
theorem cut_of_parse : ∀ (item : Item) {parsed : Item} {depth levels offset e : Nat} {rest : List UInt8},
    content.drop offset = printedText format depth item ++ rest → Closes rest →
    parse_value content levels offset = .ok (parsed, e) → item.All (fun _ => True) Clean ∨ Cut item parsed
  | .null, _, _, _, _, _, _, _, _, _ => .inl trivial
  | .bool _, _, _, _, _, _, _, _, _, _ => .inl trivial
  | .number _, _, _, _, _, _, _, _, _, _ => .inl trivial
  | .string s, parsed, depth, levels, offset, e, rest, hcontent, hrest, h => by
    by_cases hclean : Clean s
    · exact .inl hclean
    obtain ⟨c, t, rfl, hc, -⟩ := hrest
    obtain ⟨array, object, hvalue⟩ := parse_value_with content levels
    rw [printedText, printedString, List.cons_append] at hcontent
    rw [hvalue, parse_with_cons hcontent (by decide) (by decide) (by decide), if_pos rfl] at h
    obtain ⟨⟨s', n⟩, hstring, h⟩ := Access.bind_eq_ok h
    cases h
    exact .inr (.string hclean (parse_string_cut hc hclean hstring))
  | .array [], _, _, _, _, _, _, _, _, _ => .inl trivial
  | .array (item :: items), parsed, depth, levels, offset, e, rest, hcontent, hrest, h => by
    rw [printedText, List.cons_append, List.append_assoc, List.singleton_append] at hcontent
    obtain ⟨c, t, htext, hc, hgraphic⟩ := head_elements format (depth + 1) item items
    obtain ⟨levels, parsed, fuel, e', rfl, helements⟩ :=
      parse_value_array (by rw [hcontent, htext, List.cons_append]) hc hgraphic h
    have hdrop : content.drop (offset + 1) = [] ++ (printedElements format (depth + 1) (item :: items) ++ 93 :: rest) := by
      rw [← List.drop_drop, hcontent]
      rfl
    refine (cut_of_elements (item :: items) hdrop blank_nil ⟨93, rest, rfl, rfl, rfl⟩ helements).imp_right ?_
    rintro ⟨before, item', behind, item'', behind', heq, rfl, hcut⟩
    exact heq ▸ .element hcut
  | .object [], _, _, _, _, _, _, _, _, _ => .inl trivial
  | .object (member :: members), parsed, depth, levels, offset, e, rest, hcontent, hrest, h => by
    have hshape : content.drop offset = 123 :: ((if format then [10] else []) ++
        (printedMembers format (depth + 1) (member :: members) ++
          ((if format then List.replicate depth 9 else []) ++ 125 :: rest))) := by
      rw [hcontent, printedText]
      cases format with
      | true => simp only [List.append_assoc, if_true, List.cons_append, List.nil_append]
      | false => simp only [List.append_assoc, Bool.false_eq_true, if_false, List.cons_append, List.nil_append]
    obtain ⟨t, htext⟩ : ∃ t, printedMembers format (depth + 1) (member :: members) =
        (if format then List.replicate (depth + 1) 9 else []) ++ 34 :: t := ⟨_, rfl⟩
    have hw := (blank_newline format).append (blank_tabs format (depth + 1))
    obtain ⟨levels, parsed, fuel, e', rfl, hmembers⟩ := parse_value_object hw (by
      rw [hshape, htext, List.append_assoc, List.append_assoc, List.cons_append]) h
    have hdrop : content.drop (offset + 1) = (if format then [10] else []) ++
        (printedMembers format (depth + 1) (member :: members) ++
          ((if format then List.replicate depth 9 else []) ++ 125 :: rest)) := by
      rw [← List.drop_drop, hshape]
      rfl
    refine (cut_of_members (member :: members) hdrop (blank_newline format) (closes_tabs format depth rest)
      hmembers).imp_right ?_
    rintro ⟨before, name, item, behind, name', item', behind', heq, rfl, hcut⟩
    rw [heq]
    rcases hcut with ⟨hcut, hlt⟩ | ⟨rfl, hcut⟩
    · exact .name hcut hlt
    · exact .member hcut

theorem cut_of_elements : ∀ (items : List Item) {parsed : List Item} {depth levels fuel offset e : Nat}
    {w rest : List UInt8},
    content.drop (offset + 1) = w ++ (printedElements format depth items ++ rest) → Blank w → Closes rest →
    parse_elements content (parse_value content levels) fuel offset = .ok (parsed, e) →
    Doc.AllItems (fun _ => True) Clean items ∨ ∃ before item behind item' behind',
      items = before ++ item :: behind ∧ parsed = nulledItems before ++ item' :: behind' ∧ Cut item item'
  | [], _, _, _, _, _, _, _, _, _, _, _, _ => .inl trivial
  | item :: items, parsed, depth, levels, fuel, offset, e, w, rest, hcontent, hw, hrest, h => by
    obtain ⟨item', e', hvalue, hparsed⟩ := parse_elements_cases h
    generalize htail : (if items.isEmpty then [] else if format then [44, 32] else [44]) ++
      printedElements format depth items ++ rest = tail
    have hstart : content.drop (offset + 1) = w ++ (printedText format depth item ++ tail) := by
      rw [hcontent, printedElements, List.append_assoc, ← htail]
    have hcloses : Closes tail := by
      subst htail
      cases items with
      | nil => exact hrest
      | cons _ _ => cases format <;> exact ⟨44, _, rfl, rfl, rfl⟩
    obtain ⟨hskip, hdrop⟩ := skip_printed hw hstart
    rw [hskip] at hvalue
    rcases cut_of_parse item hdrop hcloses hvalue with hclean | hcut
    · obtain ⟨rfl, rfl⟩ := parse_value_clean hclean hdrop hcloses hvalue
      cases items with
      | nil => exact .inl ⟨hclean, trivial⟩
      | cons next items =>
        have hcomma : content.drop (offset + 1 + w.length + (printedText format depth item).length) =
            [] ++ 44 :: ((if format then [32] else []) ++
              (printedElements format depth (next :: items) ++ rest)) := by
          rw [drop_append hdrop, ← htail]
          cases format <;> rfl
        obtain ⟨hstay, hcomma⟩ := skip_blank blank_nil (by decide) hcomma
        rw [hstay] at hparsed
        have hnext : content.drop (offset + 1 + w.length + (printedText format depth item).length + 0 + 1) =
            (if format then [32] else []) ++ (printedElements format depth (next :: items) ++ rest) :=
          drop_append (t := [44]) hcomma
        rcases hparsed with ⟨fuel', parsed', -, rfl, hparsed⟩ | ⟨hnone, -⟩
        · refine (cut_of_elements (next :: items) hnext (blank_space format) hrest hparsed).imp
            (fun hitems => ⟨hclean, hitems⟩) ?_
          rintro ⟨before, item', behind, item'', behind', heq, rfl, hcut⟩
          exact ⟨item :: before, item', behind, item'', behind', congrArg (item :: ·) heq, rfl, hcut⟩
        · exact absurd (getElem?_of_drop hcomma) hnone
    · refine .inr ⟨[], item, items, item', ?_⟩
      rcases hparsed with ⟨fuel', parsed', -, rfl, -⟩ | ⟨-, rfl⟩
      · exact ⟨parsed', rfl, rfl, hcut⟩
      · exact ⟨[], rfl, rfl, hcut⟩

theorem cut_of_members : ∀ (members : List (StdString × Item)) {parsed : List (StdString × Item)}
    {depth levels fuel offset e : Nat} {w rest : List UInt8},
    content.drop (offset + 1) = w ++ (printedMembers format depth members ++ rest) → Blank w → Closes rest →
    parse_members content (parse_value content levels) fuel offset = .ok (parsed, e) →
    Doc.AllMembers (fun _ => True) Clean members ∨ ∃ before name item behind name' item' behind',
      members = before ++ (name, item) :: behind ∧ parsed = nulledMembers before ++ (name', item') :: behind' ∧
        ((¬ Clean name ∧ name'.length < name.length) ∨ (name = name' ∧ Cut item item'))
  | [], _, _, _, _, _, _, _, _, _, _, _, _ => .inl trivial
  | (name, item) :: members, parsed, depth, levels, fuel, offset, e, w, rest, hcontent, hw, hrest, h => by
    obtain ⟨name', n, item', e', hname, hvalue, hparsed⟩ := parse_members_cases h
    generalize htail : ((if members.isEmpty then [] else [44]) ++ (if format then [10] else [])) ++
      printedMembers format depth members ++ rest = tail
    have hstart : content.drop (offset + 1) =
        (w ++ (if format then List.replicate depth 9 else [])) ++
          (printedString name ++ 58 :: ((if format then [9] else []) ++
            (printedText format depth item ++ tail))) := by
      rw [hcontent, printedMembers, ← htail]
      cases format with
      | true => simp only [List.append_assoc, if_true, List.cons_append, List.nil_append]
      | false => simp only [List.append_assoc, Bool.false_eq_true, if_false, List.cons_append, List.nil_append]
    have hcloses : Closes tail := by
      subst htail
      cases members with
      | nil =>
        obtain ⟨c, t, rfl, hc, hn⟩ := hrest
        cases format with
        | true => exact ⟨10, _, rfl, rfl, rfl⟩
        | false => exact ⟨c, t, rfl, hc, hn⟩
      | cons _ _ => exact ⟨44, _, rfl, rfl, rfl⟩
    have hfirst (hcut : (¬ Clean name ∧ name'.length < name.length) ∨ (name = name' ∧ Cut item item')) :
        ∃ before name₁ item₁ behind name₂ item₂ behind',
          (name, item) :: members = before ++ (name₁, item₁) :: behind ∧
            parsed = nulledMembers before ++ (name₂, item₂) :: behind' ∧
            ((¬ Clean name₁ ∧ name₂.length < name₁.length) ∨ (name₁ = name₂ ∧ Cut item₁ item₂)) := by
      refine ⟨[], name, item, members, name', item', ?_⟩
      rcases hparsed with ⟨fuel', parsed', -, rfl, -⟩ | ⟨-, rfl⟩
      · exact ⟨parsed', rfl, rfl, hcut⟩
      · exact ⟨[], rfl, rfl, hcut⟩
    have hw' := hw.append (blank_tabs format depth)
    generalize w ++ (if format then List.replicate depth 9 else []) = w' at hstart hw'
    have hskip : buffer_skip_whitespace content (offset + 1) = offset + 1 + w'.length :=
      (skip_blank hw' (by decide) hstart).1
    have hdrop : content.drop (offset + 1 + w'.length) = printedString name ++ 58 ::
        ((if format then [9] else []) ++ (printedText format depth item ++ tail)) := drop_append hstart
    rw [hskip, hdrop] at hname
    by_cases hclean : Clean name
    swap
    · exact .inr (hfirst (.inl ⟨hclean, parse_string_cut rfl hclean hname⟩))
    have hread := (parse_string_text (isStringText_printed hclean) _).symm.trans hname
    obtain ⟨rfl, rfl⟩ := Prod.mk.inj (Access.ok.inj hread)
    obtain ⟨hcolon, hbehind⟩ := skip_blank blank_nil (by decide) (drop_append hdrop)
    rw [hskip, hcolon] at hvalue
    generalize offset + 1 + w'.length + (printedString name).length + ([] : List UInt8).length = colon
      at hbehind hvalue
    obtain ⟨hskip', hdrop'⟩ := skip_printed (blank_tabs format 1) (drop_append (t := [58]) hbehind)
    rw [List.length_singleton] at hskip' hdrop'
    rw [hskip'] at hvalue
    generalize colon + 1 + (if format then List.replicate 1 (9 : UInt8) else []).length = start
      at hdrop' hvalue
    rcases cut_of_parse item hdrop' hcloses hvalue with hitem | hcut
    · obtain ⟨rfl, rfl⟩ := parse_value_clean hitem hdrop' hcloses hvalue
      cases members with
      | nil => exact .inl ⟨hclean, hitem, trivial⟩
      | cons next members =>
        have hcomma : content.drop (start + (printedText format depth item).length) =
            [] ++ 44 :: ((if format then [10] else []) ++
              (printedMembers format depth (next :: members) ++ rest)) := by
          rw [drop_append hdrop', ← htail]
          cases format <;> rfl
        obtain ⟨hstay, hcomma⟩ := skip_blank blank_nil (by decide) hcomma
        rw [hstay] at hparsed
        have hnext : content.drop (start + (printedText format depth item).length + 0 + 1) =
            (if format then [10] else []) ++ (printedMembers format depth (next :: members) ++ rest) :=
          drop_append (t := [44]) hcomma
        rcases hparsed with ⟨fuel', parsed', -, rfl, hparsed⟩ | ⟨hnone, -⟩
        · refine (cut_of_members (next :: members) hnext (blank_newline format) hrest hparsed).imp
            (fun hmembers => ⟨hclean, hitem, hmembers⟩) ?_
          rintro ⟨before, name₁, item₁, behind, name₂, item₂, behind', heq, rfl, hcut⟩
          exact ⟨(name, item) :: before, name₁, item₁, behind, name₂, item₂, behind',
            congrArg ((name, item) :: ·) heq, rfl, hcut⟩
        · exact absurd (getElem?_of_drop hcomma) hnone
    · exact .inr (hfirst (.inr ⟨rfl, hcut⟩))

end

/-- What is read from what was printed is the item, up to its infinite numbers, or parts from it
where a string was cut. -/
theorem parse_printed_or {item parsed : Item} {require_null_terminated : Bool}
    (h : cJSON_ParseWithOpts (printedText format 0 item) require_null_terminated = .ok parsed) :
    (item.All (fun _ => True) Clean ∧ parsed = nulled item) ∨ Cut item parsed := by
  rw [cJSON_ParseWithOpts, cString_printedText] at h
  obtain ⟨⟨parsed', e⟩, hvalue, h⟩ := Access.bind_eq_ok h
  have hparsed : parsed' = parsed := by
    split at h
    · split at h
      · exact Access.ok.inj h
      · cases h
    · exact Access.ok.inj h
  subst hparsed
  have hbom : skip_utf8_bom (printedText format 0 item ++ [0]) = 0 := by
    obtain ⟨c, t, htext, hc, -⟩ := head_printed format 0 item
    rw [htext]
    exact skip_utf8_bom_none hc
  have hstart : (printedText format 0 item ++ [0]).drop 0 = [] ++ (printedText format 0 item ++ [0]) := rfl
  have hcloses : Closes [0] := ⟨0, [], rfl, rfl, rfl⟩
  obtain ⟨hskip, hdrop⟩ := skip_printed blank_nil hstart
  rw [hbom, hskip] at hvalue
  refine (cut_of_parse item hdrop hcloses hvalue).imp_left fun hclean => ⟨hclean, ?_⟩
  exact (parse_value_clean hclean hdrop hcloses hvalue).1

/-- What is printed is read as the same item exactly if it has finite numbers and clean strings
and is not nested too deeply. -/
theorem parse_printed_iff (format : Bool) (item : Item) (require_null_terminated : Bool) :
    cJSON_ParseWithOpts (printedText format 0 item) require_null_terminated = .ok item ↔
      Printable item ∧ item.depth ≤ CJSON_NESTING_LIMIT := by
  constructor
  · intro h
    refine ⟨?_, (wellFormed_of_parse h).depth⟩
    rcases parse_printed_or h with ⟨hclean, hself⟩ | hcut
    · exact printable_of_nulled hclean hself.symm
    · exact absurd rfl hcut.ne
  · rintro ⟨hitem, hdepth⟩
    have hclean : item.All (fun _ => True) Clean := Doc.All.imp (fun _ _ => trivial) (fun _ h => h) hitem
    rw [parse_printed require_null_terminated hclean hdepth, nulled_eq_self hitem]

end Converse

/-- `cJSON_Parse` undoes `cJSON_Print` exactly for these items. -/
theorem cJSON_Parse_print_iff {heap : Nat → Nat → Bool} {format : Bool} {item : Item} {text : StdString}
    (hprint : print heap format item = .ok text) :
    cJSON_Parse text = .ok item ↔ Printable item ∧ item.depth ≤ CJSON_NESTING_LIMIT := by
  rw [text_of_print hprint]
  exact parse_printed_iff format item false

set_option maxRecDepth 4096 in
theorem print_cutArray : print (fun _ _ => true) true (.array [.string [1]]) = .ok (ascii "[\"\\u00]") := rfl

/-- A control character that is cut. -/
theorem cJSON_Parse_print_iff_cut :
    cJSON_Parse (ascii "[\"\\u00]") = .ok (.array [.string [1]]) ↔
      Printable (.array [.string [1]]) ∧ (Doc.array [.string [1]] : Item).depth ≤ CJSON_NESTING_LIMIT :=
  cJSON_Parse_print_iff print_cutArray

end Hardcoder.cJSON
