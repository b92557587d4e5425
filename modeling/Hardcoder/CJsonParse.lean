import Hardcoder.CJsonNumber
import Hardcoder.CJsonString
import Hardcoder.Lib.JsonText

/-! `cJSON_Parse` (cJSON.c) on the bytes of its text: it stays in the text, ends, and reads
every JSON text. -/

namespace Hardcoder.cJSON
open JsonText Strtol Strtod
set_option autoImplicit false

/-- An item with what hangs under it. -/
abbrev Item := Doc Binary64 StdString

def CJSON_NESTING_LIMIT : Nat := 1000

section Parse
variable (content : List UInt8)

def buffer_skip_whitespace (offset : Nat) : Nat :=
  let offset := offset + ((content.drop offset).takeWhile (· ≤ 32)).length
  if offset = content.length then offset - 1 else offset

def skip_utf8_bom : Nat := if 4 < content.length ∧ content.take 3 = [0xEF, 0xBB, 0xBF] then 3 else 0

/-! Each of the functions below gives what is parsed and the offset behind it. -/

/-- The comma separated elements, from the byte in front of the first on. Every pass goes on
in the text, so that there are fewer than it has bytes. -/
def parse_elements (parse_value : Nat → Access (Item × Nat)) : Nat → Nat → Access (List Item × Nat)
  | 0, _ => .outside
  | fuel + 1, offset => do
    let value ← parse_value (buffer_skip_whitespace content (offset + 1))
    let offset := buffer_skip_whitespace content value.2
    if content[offset]? = some 44 then
      let rest ← parse_elements parse_value fuel offset
      .ok (value.1 :: rest.1, rest.2)
    else if content[offset]? = some 93 then .ok ([value.1], offset + 1)
    else .failed

def parse_array (parse_value : Nat → Access (Item × Nat)) (offset : Nat) : Access (Item × Nat) :=
  match content[offset]? with
  | none => .outside
  | some c =>
    if c ≠ 91 then .failed
    else
      let offset := buffer_skip_whitespace content (offset + 1)
      if content[offset]? = some 93 then .ok (.array [], offset + 1)
      else if content.length ≤ offset then .failed
      else do
        -- step back to the byte in front of the first element
        let elements ← parse_elements content parse_value content.length (offset - 1)
        .ok (.array elements.1, elements.2)

def parse_members (parse_value : Nat → Access (Item × Nat)) :
    Nat → Nat → Access (List (StdString × Item) × Nat)
  | 0, _ => .outside
  | fuel + 1, offset => do
    let offset := buffer_skip_whitespace content (offset + 1)
    let name ← parse_string (content.drop offset)
    let offset := buffer_skip_whitespace content (offset + name.2)
    if content[offset]? ≠ some 58 then .failed
    else
      let value ← parse_value (buffer_skip_whitespace content (offset + 1))
      let offset := buffer_skip_whitespace content value.2
      if content[offset]? = some 44 then
        let rest ← parse_members parse_value fuel offset
        .ok ((name.1, value.1) :: rest.1, rest.2)
      else if content[offset]? = some 125 then .ok ([(name.1, value.1)], offset + 1)
      else .failed

def parse_object (parse_value : Nat → Access (Item × Nat)) (offset : Nat) : Access (Item × Nat) :=
  if content[offset]? ≠ some 123 then .failed
  else
    let offset := buffer_skip_whitespace content (offset + 1)
    if content[offset]? = some 125 then .ok (.object [], offset + 1)
    else if content.length ≤ offset then .failed
    else do
      let members ← parse_members content parse_value content.length (offset - 1)
      .ok (.object members.1, members.2)

/-- The cases of `parse_value`, with what is done for an array and for an object. -/
def parse_with (array object : Nat → Access (Item × Nat)) (offset : Nat) : Access (Item × Nat) :=
  let text := content.drop offset
  if (ascii "null").isPrefixOf text then .ok (.null, offset + 4)
  else if (ascii "false").isPrefixOf text then .ok (.bool false, offset + 5)
  else if (ascii "true").isPrefixOf text then .ok (.bool true, offset + 4)
  else
    match text with
    | [] => .failed
    | c :: _ =>
      if c = 34 then do
        let string ← parse_string text
        .ok (.string string.1, offset + string.2)
      else if c = 45 ∨ isdigit c then
        match parse_number text with
        | none => .failed
        | some (d, length) => .ok (.number d, offset + length)
      else if c = 91 then array offset
      else if c = 123 then object offset
      else .failed

/-- `parse_value` with so many levels left below `CJSON_NESTING_LIMIT`. -/
def parse_value : Nat → Nat → Access (Item × Nat)
  | 0 => parse_with content (fun _ => .failed) fun _ => .failed
  | levels + 1 =>
    parse_with content (parse_array content (parse_value levels)) (parse_object content (parse_value levels))

end Parse

/-- The text that `value` points to ends at its first zero byte, which is the last of the buffer. -/
def cJSON_ParseWithOpts (value : StdString) (require_null_terminated : Bool) : Access Item := do
  let content := cString value ++ [0]
  let item ← parse_value content CJSON_NESTING_LIMIT
    (buffer_skip_whitespace content (skip_utf8_bom content))
  if require_null_terminated then
    if content[buffer_skip_whitespace content item.2]? = some 0 then .ok item.1 else .failed
  else .ok item.1

def cJSON_Parse (value : StdString) : Access Item := cJSON_ParseWithOpts value false

/-! ### It stays inside and ends -/

section Bounds
variable {content : List UInt8} {offset : Nat}

/-- What is read has the property, and the text goes on behind it. -/
structure Reads {α : Type} (content : List UInt8) (offset : Nat) (P : α → Prop) (r : α × Nat) : Prop where
  lt : offset < r.2
  le : r.2 ≤ content.length
  holds : P r.1

theorem length_takeWhile_drop (p : UInt8 → Bool) (h : offset ≤ content.length) :
    offset + ((content.drop offset).takeWhile p).length ≤ content.length := by
  have hle := (List.takeWhile_prefix (l := content.drop offset) p).length_le
  rw [List.length_drop] at hle
  omega

theorem skip_lt (hne : content ≠ []) (h : offset ≤ content.length) :
    buffer_skip_whitespace content offset < content.length := by
  have hle := length_takeWhile_drop (· ≤ 32) h
  have hpos := List.length_pos_iff.mpr hne
  unfold buffer_skip_whitespace
  dsimp only
  split <;> omega

theorem le_skip_succ (content : List UInt8) (offset : Nat) : offset ≤ buffer_skip_whitespace content offset + 1 := by
  unfold buffer_skip_whitespace
  dsimp only
  split <;> omega

/-- It steps back from the end only, to the zero there. -/
theorem le_skip (hlast : content.getLast? = some 0) {c : UInt8}
    (hc : content[buffer_skip_whitespace content offset]? = some c) (h0 : c ≠ 0) :
    offset ≤ buffer_skip_whitespace content offset := by
  unfold buffer_skip_whitespace at hc ⊢
  dsimp only at hc ⊢
  split
  · rename_i heq
    rw [if_pos heq, heq, ← List.getLast?_eq_getElem?, hlast] at hc
    exact absurd (Option.some.inj hc).symm h0
  · exact Nat.le_add_right _ _

theorem le_skip_of_lt (h : offset < content.length) : offset ≤ buffer_skip_whitespace content offset := by
  unfold buffer_skip_whitespace
  dsimp only
  split <;> omega

/-- The last byte is the zero. -/
theorem succ_lt (hlast : content.getLast? = some 0) {c : UInt8} (hc : content[offset]? = some c)
    (h0 : c ≠ 0) : offset + 1 < content.length := by
  have hlt := (List.getElem?_eq_some_iff.mp hc).1
  rw [List.getLast?_eq_getElem?] at hlast
  by_contra hend
  have heq : content.length - 1 = offset := by omega
  rw [heq, hc] at hlast
  exact h0 (Option.some.inj hlast)

theorem parse_number_bounds {text : List UInt8} {d : Binary64} {length : Nat}
    (h : parse_number text = some (d, length)) : 0 < length ∧ length ≤ text.length := by
  unfold parse_number at h
  obtain ⟨r, hr, heq⟩ := Option.map_eq_some_iff.mp h
  cases heq
  have hlt := length_strtod_lt hr
  have hle : (number_c_string text).length ≤ text.length := by
    rw [number_c_string, List.length_take]
    exact Nat.le_trans (Nat.min_le_right _ _) (List.takeWhile_prefix _).length_le
  omega

theorem isPrefixOf_length {word : List UInt8} (h : word.isPrefixOf (content.drop offset) = true)
    (hne : 0 < word.length) : offset + word.length ≤ content.length := by
  have hle := (List.isPrefixOf_iff_prefix.mp h).length_le
  rw [List.length_drop] at hle
  omega

variable {P : Item → Prop}

theorem parse_with_ensures {array object : Nat → Access (Item × Nat)} (hnull : P .null)
    (hbool : ∀ b, P (.bool b)) (hnumber : ∀ d, P (.number d)) (hstring : ∀ s, 0 ∉ s → P (.string s))
    (harray : offset < content.length → (array offset).Ensures (Reads content offset P))
    (hobject : (object offset).Ensures (Reads content offset P)) :
    (parse_with content array object offset).Ensures (Reads content offset P) := by
  unfold parse_with
  dsimp only
  split
  · rename_i h
    exact ⟨Nat.lt_add_of_pos_right (by decide), isPrefixOf_length h (by decide), hnull⟩
  split
  · rename_i h
    exact ⟨Nat.lt_add_of_pos_right (by decide), isPrefixOf_length h (by decide), hbool false⟩
  split
  · rename_i h
    exact ⟨Nat.lt_add_of_pos_right (by decide), isPrefixOf_length h (by decide), hbool true⟩
  split
  · trivial
  rename_i c rest htext
  have hlen : (content.drop offset).length = content.length - offset := List.length_drop
  have hpos : 0 < (content.drop offset).length := by
    rw [htext]
    exact Nat.succ_pos _
  split
  · refine (parse_string_ensures (List.ne_nil_of_length_pos hpos)).bind fun r hr => ?_
    obtain ⟨hzero, hlt, hle⟩ := hr
    exact Access.ensures_ok.mpr ⟨Nat.lt_add_of_pos_right hlt, by dsimp only; omega, hstring r.1 hzero⟩
  split
  · cases hparse : parse_number (content.drop offset) with
    | none => trivial
    | some r =>
      obtain ⟨hlt, hle⟩ := parse_number_bounds hparse
      exact Access.ensures_ok.mpr ⟨Nat.lt_add_of_pos_right hlt, by dsimp only; omega, hnumber r.1⟩
  split
  · exact harray (by omega)
  split
  · exact hobject
  · trivial

variable {parse_value : Nat → Access (Item × Nat)}
  (hlast : content.getLast? = some 0)
  (hvalue : ∀ offset, (parse_value offset).Ensures (Reads content offset P))

include hlast hvalue

theorem parse_elements_ensures {fuel : Nat} (hoffset : offset < content.length)
    (hfuel : content.length ≤ fuel + offset) :
    (parse_elements content parse_value fuel offset).Ensures
      (Reads content offset fun items => ∀ item ∈ items, P item) := by
  have hne : content ≠ [] := List.ne_nil_of_length_pos (Nat.zero_lt_of_lt hoffset)
  induction fuel generalizing offset with
  | zero => exact absurd hfuel (by omega)
  | succ fuel ih =>
    rw [parse_elements]
    refine (hvalue _).bind fun value hv => ?_
    have hstart := le_skip_succ content (offset + 1)
    have hskip := skip_lt hne hv.le
    have hlt := hv.lt
    dsimp only
    split
    · rename_i hcomma
      have hle := le_skip hlast hcomma (by decide)
      refine (ih hskip (by omega)).bind fun rest hrest => ?_
      have hbehind := hrest.lt
      exact Access.ensures_ok.mpr
        ⟨by dsimp only; omega, hrest.le, List.forall_mem_cons.mpr ⟨hv.holds, hrest.holds⟩⟩
    split
    · rename_i hbracket
      have hle := le_skip hlast hbracket (by decide)
      exact Access.ensures_ok.mpr
        ⟨by dsimp only; omega, hskip, List.forall_mem_singleton.mpr hv.holds⟩
    · trivial

theorem parse_members_ensures {fuel : Nat} (hoffset : offset < content.length)
    (hfuel : content.length ≤ fuel + offset) :
    (parse_members content parse_value fuel offset).Ensures
      (Reads content offset fun members => ∀ member ∈ members, 0 ∉ member.1 ∧ P member.2) := by
  have hne : content ≠ [] := List.ne_nil_of_length_pos (Nat.zero_lt_of_lt hoffset)
  induction fuel generalizing offset with
  | zero => exact absurd hfuel (by omega)
  | succ fuel ih =>
    rw [parse_members]
    dsimp only
    have hstart := le_skip_succ content (offset + 1)
    have hname : buffer_skip_whitespace content (offset + 1) < content.length := skip_lt hne hoffset
    have hdrop : content.drop (buffer_skip_whitespace content (offset + 1)) ≠ [] := by
      rw [ne_eq, List.drop_eq_nil_iff]
      omega
    refine (parse_string_ensures hdrop).bind fun name hn => ?_
    rw [List.length_drop] at hn
    split
    · trivial
    rename_i hcolon
    have hcolon := not_not.mp hcolon
    have hbehind := le_skip hlast hcolon (by decide)
    have hnamele : buffer_skip_whitespace content (offset + 1) + name.2 ≤ content.length := by omega
    have hcolonlt := skip_lt hne hnamele
    refine (hvalue _).bind fun value hv => ?_
    have hvstart := le_skip_succ content
      (buffer_skip_whitespace content (buffer_skip_whitespace content (offset + 1) + name.2) + 1)
    have hskip := skip_lt hne hv.le
    have hlt := hv.lt
    split
    · rename_i hcomma
      have hle := le_skip hlast hcomma (by decide)
      refine (ih hskip (by omega)).bind fun rest hrest => ?_
      have hbehind' := hrest.lt
      exact Access.ensures_ok.mpr ⟨by dsimp only; omega, hrest.le,
        List.forall_mem_cons.mpr ⟨⟨hn.1, hv.holds⟩, hrest.holds⟩⟩
    split
    · rename_i hbrace
      have hle := le_skip hlast hbrace (by decide)
      exact Access.ensures_ok.mpr
        ⟨by dsimp only; omega, hskip, List.forall_mem_singleton.mpr ⟨hn.1, hv.holds⟩⟩
    · trivial

theorem parse_array_ensures {P' : Item → Prop}
    (harray : ∀ items, (∀ item ∈ items, P item) → P' (.array items)) (hoffset : offset < content.length) :
    (parse_array content parse_value offset).Ensures (Reads content offset P') := by
  have hne : content ≠ [] := List.ne_nil_of_length_pos (Nat.zero_lt_of_lt hoffset)
  unfold parse_array
  cases hc : content[offset]? with
  | none => exact absurd (List.getElem?_eq_none_iff.mp hc) (Nat.not_le.mpr hoffset)
  | some c =>
    dsimp only
    split
    · trivial
    rename_i hopen
    have hopen := not_not.mp hopen
    subst hopen
    have hlt := succ_lt hlast hc (by decide)
    have hskip := skip_lt hne (Nat.le_of_lt hlt)
    have hstart := le_skip_of_lt hlt
    split
    · exact Access.ensures_ok.mpr
        ⟨by dsimp only; omega, hskip, harray [] fun _ h => absurd h List.not_mem_nil⟩
    split
    · trivial
    · refine (parse_elements_ensures hlast hvalue (by omega) (by omega)).bind fun r hr => ?_
      have hbehind := hr.lt
      exact Access.ensures_ok.mpr ⟨by dsimp only; omega, hr.le, harray r.1 hr.holds⟩

theorem parse_object_ensures {P' : Item → Prop}
    (hobject : ∀ members, (∀ member ∈ members, 0 ∉ member.1 ∧ P member.2) → P' (.object members)) :
    (parse_object content parse_value offset).Ensures (Reads content offset P') := by
  unfold parse_object
  dsimp only
  split
  · trivial
  rename_i hopen
  have hopen := not_not.mp hopen
  have hlt := succ_lt hlast hopen (by decide)
  have hne : content ≠ [] := List.ne_nil_of_length_pos (Nat.zero_lt_of_lt hlt)
  have hskip := skip_lt hne (Nat.le_of_lt hlt)
  have hstart := le_skip_of_lt hlt
  split
  · exact Access.ensures_ok.mpr
      ⟨by dsimp only; omega, hskip, hobject [] fun _ h => absurd h List.not_mem_nil⟩
  split
  · trivial
  · refine (parse_members_ensures hlast hvalue (by omega) (by omega)).bind fun r hr => ?_
    have hbehind := hr.lt
    exact Access.ensures_ok.mpr ⟨by dsimp only; omega, hr.le, hobject r.1 hr.holds⟩

end Bounds

/-- An item that is nested no deeper, with C strings as its strings and names. -/
structure WellFormed (levels : Nat) (item : Item) : Prop where
  depth : item.depth ≤ levels
  strings : item.All (fun _ => True) fun s => 0 ∉ s

section WellFormed
variable {levels : Nat}

theorem wellFormed_array (items : List Item) (h : ∀ item ∈ items, WellFormed levels item) :
    WellFormed (levels + 1) (.array items) :=
  ⟨Nat.succ_le_succ (Doc.depthItems_le fun item hitem => (h item hitem).depth),
    Doc.allItems_of_forall fun item hitem => (h item hitem).strings⟩

theorem wellFormed_object (members : List (StdString × Item))
    (h : ∀ member ∈ members, 0 ∉ member.1 ∧ WellFormed levels member.2) :
    WellFormed (levels + 1) (.object members) :=
  ⟨Nat.succ_le_succ (Doc.depthMembers_le fun member hmember => (h member hmember).2.depth),
    Doc.allMembers_of_forall fun member hmember => ⟨(h member hmember).1, (h member hmember).2.strings⟩⟩

/-- Whatever it meets, `parse_value` gives up or goes on in the text. -/
theorem parse_value_ensures {content : List UInt8} (hlast : content.getLast? = some 0) (levels offset : Nat) :
    (parse_value content levels offset).Ensures (Reads content offset (WellFormed levels)) := by
  induction levels generalizing offset with
  | zero =>
    exact parse_with_ensures ⟨Nat.le_refl 0, trivial⟩ (fun _ => ⟨Nat.le_refl 0, trivial⟩)
      (fun _ => ⟨Nat.le_refl 0, trivial⟩) (fun _ h => ⟨Nat.le_refl 0, h⟩) (fun _ => trivial) trivial
  | succ levels ih =>
    exact parse_with_ensures ⟨Nat.zero_le _, trivial⟩ (fun _ => ⟨Nat.zero_le _, trivial⟩)
      (fun _ => ⟨Nat.zero_le _, trivial⟩) (fun _ h => ⟨Nat.zero_le _, h⟩)
      (parse_array_ensures hlast ih wellFormed_array) (parse_object_ensures hlast ih wellFormed_object)

end WellFormed

theorem wellFormed_of_parse {value : StdString} {require_null_terminated : Bool} {item : Item}
    (h : cJSON_ParseWithOpts value require_null_terminated = .ok item) :
    WellFormed CJSON_NESTING_LIMIT item := by
  rw [cJSON_ParseWithOpts] at h
  obtain ⟨r, hvalue, h⟩ := Access.bind_eq_ok h
  have hr := ((parse_value_ensures List.getLast?_concat _ _).of_ok hvalue).holds
  split at h
  · split at h
    · cases h
      exact hr
    · cases h
  · cases h
    exact hr

/-- Whatever the text, `cJSON_Parse` ends, touches nothing outside of it or of the blocks it
allocates, and gives up or makes an item of limited depth. -/
theorem cJSON_ParseWithOpts_ensures (value : StdString) (require_null_terminated : Bool) :
    (cJSON_ParseWithOpts value require_null_terminated).Ensures (WellFormed CJSON_NESTING_LIMIT) := by
  unfold cJSON_ParseWithOpts
  dsimp only
  refine (parse_value_ensures List.getLast?_concat _ _).bind fun item hitem => ?_
  split
  · split
    · exact Access.ensures_ok.mpr hitem.holds
    · trivial
  · exact Access.ensures_ok.mpr hitem.holds

end Hardcoder.cJSON
