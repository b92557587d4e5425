import Hardcoder.CJsonRoundTrip

/-! The items of cJSON as documents: what a reader makes of a text, whatever the signs of its
zeros. -/

namespace Hardcoder.cJSON
open JsonText Rounding Strtol
set_option autoImplicit false

def Binary64.ofNumber : Number → Binary64
  | .finite d => .ofDouble (d.value < 0) d
  | .infinite negative => .infinite negative

mutual

/-- The document of an item. -/
def toJson : Item → Json
  | .null => .null
  | .bool b => .bool b
  | .number d => .number d.number
  | .string s => .string s
  | .array items => .array (toItems items)
  | .object members => .object (toMembers members)

def toItems : List Item → List Json
  | [] => []
  | item :: items => toJson item :: toItems items

def toMembers : List (StdString × Item) → List (StdString × Json)
  | [] => []
  | (name, item) :: members => (name, toJson item) :: toMembers members

end

mutual

/-- The item that is created for a document, whose zeros have no sign. -/
def ofJson : Json → Item
  | .null => .null
  | .bool b => .bool b
  | .number n => .number (.ofNumber n)
  | .string s => .string s
  | .array items => .array (ofItems items)
  | .object members => .object (ofMembers members)

def ofItems : List Json → List Item
  | [] => []
  | item :: items => ofJson item :: ofItems items

def ofMembers : List (StdString × Json) → List (StdString × Item)
  | [] => []
  | (name, item) :: members => (name, ofJson item) :: ofMembers members

end

theorem number_ofNumber {d : Double} (h : (Binary64.ofNumber (.finite d)).isFinite = true) :
    (Binary64.ofNumber (.finite d)).number = .finite d := by
  unfold Binary64.ofNumber Binary64.ofDouble at h ⊢
  dsimp only at h ⊢
  split
  · rename_i hzero
    have heq : Double.nearest 0 = d := Double.ext (toFloat_zero.trans hzero.symm)
    exact congrArg Number.finite heq
  · rename_i hnonzero
    rw [dif_neg hnonzero] at h
    split
    · rfl
    · rename_i hlarge
      rw [dif_neg hlarge] at h
      cases h

/-- A 64-bit integer is far from infinity. -/
theorem isFinite_integer {z : Int} (h : |z| ≤ 2 ^ 64) :
    (Binary64.ofNumber (.finite (.nearest z))).isFinite = true := by
  have hnear : |toFloat 53 (-1074) (z : ℚ) - z| ≤ |((0 : ℤ) : ℚ) - z| :=
    toFloat_nearest (by decide) (isFloat_of_abs_le (by decide) (by decide))
  have hz : |(z : ℚ)| ≤ 2 ^ 64 := by exact_mod_cast h
  have hsmall : |(Double.nearest z).value| < 2 ^ 1024 := by
    have htriangle := abs_sub_abs_le_abs_sub (toFloat 53 (-1074) z) (z : ℚ)
    rw [Int.cast_zero, zero_sub, abs_neg] at hnear
    have hpow : (2 : ℚ) ^ 65 ≤ 2 ^ 1024 := pow_le_pow_right₀ one_le_two (by decide)
    have hlt : |toFloat 53 (-1074) (z : ℚ)| ≤ 2 ^ 65 := by linarith
    refine lt_of_le_of_lt hlt ?_
    exact pow_lt_pow_right₀ one_lt_two (by decide)
  unfold Binary64.ofNumber Binary64.ofDouble
  dsimp only
  split
  · rfl
  · rfl

mutual

/-- What is read from the text of an item is what its document says. -/
theorem toJson_nulled : ∀ item : Item, toJson (nulled item) = (toJson item).printed
  | .null => rfl
  | .bool _ => rfl
  | .number (.zero _) => congrArg (fun d => Json.number (.finite d)) (nearest_print_number _).symm
  | .number (.finite d _ _) => congrArg (fun d => Json.number (.finite d)) (nearest_print_number d).symm
  | .number (.infinite _) => rfl
  | .string _ => rfl
  | .array items => congrArg Json.array (toItems_nulled items)
  | .object members => congrArg Json.object (toMembers_nulled members)

theorem toItems_nulled : ∀ items : List Item, toItems (nulledItems items) = Json.printedItems (toItems items)
  | [] => rfl
  | item :: items => congrArg₂ List.cons (toJson_nulled item) (toItems_nulled items)

theorem toMembers_nulled : ∀ members : List (StdString × Item),
    toMembers (nulledMembers members) = Json.printedMembers (toMembers members)
  | [] => rfl
  | (name, item) :: members =>
    congrArg₂ List.cons (congrArg (Prod.mk name) (toJson_nulled item)) (toMembers_nulled members)

end

mutual

theorem toJson_ofJson : ∀ {item : Json}, Printable (ofJson item) → toJson (ofJson item) = item
  | .null, _ => rfl
  | .bool _, _ => rfl
  | .number (.finite _), h => congrArg Json.number (number_ofNumber h)
  | .number (.infinite _), h => absurd h Bool.false_ne_true
  | .string _, _ => rfl
  | .array _, h => congrArg Json.array (toItems_ofItems h)
  | .object _, h => congrArg Json.object (toMembers_ofMembers h)

theorem toItems_ofItems :
    ∀ {items : List Json}, Doc.AllItems (fun d => d.isFinite = true) Clean (ofItems items) →
      toItems (ofItems items) = items
  | [], _ => rfl
  | _ :: _, h => congrArg₂ List.cons (toJson_ofJson h.1) (toItems_ofItems h.2)

theorem toMembers_ofMembers : ∀ {members : List (StdString × Json)},
    Doc.AllMembers (fun d => d.isFinite = true) Clean (ofMembers members) →
      toMembers (ofMembers members) = members
  | [], _ => rfl
  | (name, _) :: _, h =>
    congrArg₂ List.cons (congrArg (Prod.mk name) (toJson_ofJson h.2.1)) (toMembers_ofMembers h.2.2)

end

mutual

/-- A clean item can be printed if the numbers of its document are finite. -/
theorem printable_iff : ∀ {item : Item},
    Printable item ↔ item.All (fun _ => True) Clean ∧ (toJson item).isFinite = true
  | .null => iff_of_true trivial ⟨trivial, rfl⟩
  | .bool _ => iff_of_true trivial ⟨trivial, rfl⟩
  | .number (.zero _) => iff_of_true rfl ⟨trivial, rfl⟩
  | .number (.finite _ _ _) => iff_of_true rfl ⟨trivial, rfl⟩
  | .number (.infinite _) => iff_of_false Bool.false_ne_true fun h => Bool.false_ne_true h.2
  | .string _ => (and_iff_left rfl).symm
  | .array _ => printableItems_iff
  | .object _ => printableMembers_iff

theorem printableItems_iff : ∀ {items : List Item}, Doc.AllItems (fun d => d.isFinite = true) Clean items ↔
    Doc.AllItems (fun _ => True) Clean items ∧ Json.finiteItems (toItems items) = true
  | [] => iff_of_true trivial ⟨trivial, rfl⟩
  | item :: items => by
    rw [toItems, Json.finiteItems, Bool.and_eq_true, Doc.AllItems, Doc.AllItems, and_and_and_comm,
      ← printable_iff, ← printableItems_iff, Printable]

theorem printableMembers_iff : ∀ {members : List (StdString × Item)},
    Doc.AllMembers (fun d => d.isFinite = true) Clean members ↔
      Doc.AllMembers (fun _ => True) Clean members ∧ Json.finiteMembers (toMembers members) = true
  | [] => iff_of_true trivial ⟨trivial, rfl⟩
  | (name, item) :: members => by
    rw [toMembers, Json.finiteMembers, Bool.and_eq_true, Doc.AllMembers, Doc.AllMembers, and_assoc,
      and_and_and_comm, ← printable_iff, ← printableMembers_iff, Printable]

end

/-- All strings of the document are clean, and its numbers are such. -/
def CleanMembers (P : Binary64 → Prop) (members : List (StdString × Json)) : Prop :=
  Doc.AllMembers P Clean (ofMembers members)

section Members
variable {P : Binary64 → Prop} {members members' : List (StdString × Json)}

theorem clean_object : (ofJson (.object members)).All P Clean ↔ CleanMembers P members := Iff.rfl

theorem cleanMembers_nil : CleanMembers P [] := trivial

theorem cleanMembers_cons {name : StdString} {item : Json} :
    CleanMembers P ((name, item) :: members) ↔
      Clean name ∧ (ofJson item).All P Clean ∧ CleanMembers P members := Iff.rfl

theorem cleanMembers_append :
    CleanMembers P (members ++ members') ↔ CleanMembers P members ∧ CleanMembers P members' := by
  induction members with
  | nil => exact (iff_of_eq (true_and _)).symm
  | cons member members ih =>
    obtain ⟨name, item⟩ := member
    rw [List.cons_append, cleanMembers_cons, cleanMembers_cons, ih, and_assoc, and_assoc]

theorem clean_array {α : Type} (f : α → Json) (as : List α) :
    (ofJson (.array (as.map f))).All P Clean ↔ ∀ a ∈ as, (ofJson (f a)).All P Clean := by
  induction as with
  | nil => exact iff_of_true trivial fun _ h => absurd h List.not_mem_nil
  | cons a as ih => rw [List.forall_mem_cons, ← ih]; rfl

end Members

/-! ### Texts -/

/-- The document that is parsed, if there is one. -/
def parsedJson (text : StdString) : Option Json :=
  match cJSON_Parse text with
  | .ok item => some (toJson item)
  | _ => none

theorem parsedJson_eq_some {text : StdString} {doc : Json} (h : parsedJson text = some doc) :
    ∃ item, cJSON_Parse text = .ok item ∧ doc = toJson item := by
  unfold parsedJson at h
  split at h
  · exact ⟨_, ‹_›, (Option.some.inj h).symm⟩
  · cases h

theorem parsedJson_of_print {heap : Nat → Nat → Bool} {item : Item} {text : StdString}
    (hclean : item.All (fun _ => True) Clean) (hdepth : item.depth ≤ CJSON_NESTING_LIMIT)
    (hprint : print heap true item = .ok text) : parsedJson text = some (toJson item).printed := by
  have htext : text = printedText true 0 item := text_of_print hprint
  rw [parsedJson, htext, cJSON_Parse, parse_printed false hclean hdepth]
  exact congrArg some (toJson_nulled item)

section Append
variable {items items' : List Item} {members members' : List (StdString × Item)}

theorem toMembers_append (members members' : List (StdString × Item)) :
    toMembers (members ++ members') = toMembers members ++ toMembers members' := by
  induction members with
  | nil => rfl
  | cons member members ih => rw [List.cons_append, toMembers, toMembers, ih, List.cons_append]

theorem ofMembers_append (members members' : List (StdString × Json)) :
    ofMembers (members ++ members') = ofMembers members ++ ofMembers members' := by
  induction members with
  | nil => rfl
  | cons member members ih => rw [List.cons_append, ofMembers, ofMembers, ih, List.cons_append]

theorem forall_ofMembers {members : List (StdString × Json)} {P : StdString → Prop} :
    (∀ m ∈ ofMembers members, P m.1) ↔ ∀ m ∈ members, P m.1 := by
  induction members with
  | nil => exact iff_of_true (fun _ h => absurd h List.not_mem_nil) fun _ h => absurd h List.not_mem_nil
  | cons member members ih => rw [ofMembers, List.forall_mem_cons, List.forall_mem_cons, ih]

theorem toItems_append (items items' : List Item) : toItems (items ++ items') = toItems items ++ toItems items' := by
  induction items with
  | nil => rfl
  | cons item items ih => rw [List.cons_append, toItems, toItems, ih, List.cons_append]

theorem length_toItems (items : List Item) : (toItems items).length = items.length := by
  induction items with
  | nil => rfl
  | cons item items ih => rw [toItems, List.length_cons, List.length_cons, ih]

theorem length_toMembers (members : List (StdString × Item)) : (toMembers members).length = members.length := by
  induction members with
  | nil => rfl
  | cons member members ih => rw [toMembers, List.length_cons, List.length_cons, ih]

end Append

/-! ### Where a text is cut -/

/-- The cut is seen in the document. -/
theorem Cut.toJson_ne {item item' : Item} (h : Cut item item') : toJson item ≠ toJson item' := by
  induction h with
  | string hcut hlt =>
    intro heq
    cases heq
    exact absurd hlt (Nat.lt_irrefl _)
  | @element items item item' items' items'' _ ih =>
    intro heq
    have heq := Json.array.inj heq
    rw [toItems_append, toItems_append] at heq
    obtain ⟨-, heq⟩ := List.append_inj heq (by rw [length_toItems, length_toItems, length_nulledItems])
    exact ih (List.cons.inj heq).1
  | @name members name name' item item' members' members'' hcut hlt =>
    intro heq
    have heq := Json.object.inj heq
    rw [toMembers_append, toMembers_append] at heq
    obtain ⟨-, heq⟩ := List.append_inj heq (by rw [length_toMembers, length_toMembers, length_nulledMembers])
    obtain rfl := (Prod.mk.inj (List.cons.inj heq).1).1
    exact absurd hlt (Nat.lt_irrefl _)
  | @member members name item item' members' members'' _ ih =>
    intro heq
    have heq := Json.object.inj heq
    rw [toMembers_append, toMembers_append] at heq
    obtain ⟨-, heq⟩ := List.append_inj heq (by rw [length_toMembers, length_toMembers, length_nulledMembers])
    exact ih (Prod.mk.inj (List.cons.inj heq).1).2

/-- Where all but one member is clean, the cut is in that one. -/
theorem Cut.of_member {before behind : List (StdString × Item)} {name : StdString} {item parsed : Item}
    (h : Cut (.object (before ++ (name, item) :: behind)) parsed)
    (hbefore : Doc.AllMembers (fun _ => True) Clean before) (hname : Clean name)
    (hbehind : Doc.AllMembers (fun _ => True) Clean behind) :
    ∃ item' behind', parsed = .object (nulledMembers before ++ (name, item') :: behind') ∧ Cut item item' := by
  have hposition {members members' : List (StdString × Item)} {name' : StdString} {item' : Item}
      (hunclean : ¬ (Clean name' ∧ item'.All (fun _ => True) Clean))
      (heq : before ++ (name, item) :: behind = members ++ (name', item') :: members') :
      members = before ∧ name' = name ∧ item' = item := by
    rcases List.append_eq_append_iff.mp heq with ⟨between, rfl, hcons⟩ | ⟨between, rfl, hcons⟩
    · cases between with
      | nil =>
        obtain ⟨hmember, -⟩ := List.cons.inj hcons
        exact ⟨List.append_nil _, (Prod.mk.inj hmember).1.symm, (Prod.mk.inj hmember).2.symm⟩
      | cons _ between =>
        obtain ⟨-, rfl⟩ := List.cons.inj hcons
        obtain ⟨-, hname', hitem', -⟩ := Doc.allMembers_append.mp hbehind
        exact absurd ⟨hname', hitem'⟩ hunclean
    · cases between with
      | nil =>
        obtain ⟨hmember, -⟩ := List.cons.inj hcons
        exact ⟨(List.append_nil _).symm, (Prod.mk.inj hmember).1, (Prod.mk.inj hmember).2⟩
      | cons member between =>
        obtain ⟨rfl, -⟩ := List.cons.inj hcons
        obtain ⟨-, hname', hitem', -⟩ := Doc.allMembers_append.mp hbefore
        exact absurd ⟨hname', hitem'⟩ hunclean
  generalize hwhole : (Doc.object (before ++ (name, item) :: behind) : Item) = whole at h
  cases h with
  | string hcut hlt => cases hwhole
  | element h => cases hwhole
  | name hcut hlt =>
    obtain ⟨-, rfl, -⟩ := hposition (fun h => hcut h.1) (Doc.object.inj hwhole)
    exact absurd hname hcut
  | member h =>
    obtain ⟨rfl, rfl, rfl⟩ := hposition (fun hclean => h.not_clean hclean.2) (Doc.object.inj hwhole)
    exact ⟨_, _, rfl, h⟩

/-- Where what follows the first members is clean, the cut is seen in these. -/
theorem Cut.toMembers_ne {members added : List (StdString × Item)} {parsed : Item}
    (h : Cut (.object (members ++ added)) parsed) (hadded : Doc.AllMembers (fun _ => True) Clean added) :
    ∃ parsed', parsed = .object parsed' ∧ ∀ rest, toMembers parsed' ≠ toMembers members ++ rest := by
  have hposition {before behind : List (StdString × Item)} {name : StdString} {item : Item}
      (hunclean : ¬ (Clean name ∧ item.All (fun _ => True) Clean))
      (heq : members ++ added = before ++ (name, item) :: behind) :
      ∃ behind', members = before ++ (name, item) :: behind' := by
    have hnotAdded {between : List (StdString × Item)} (h : added = between ++ (name, item) :: behind) : False := by
      subst h
      obtain ⟨-, hname, hitem, -⟩ := Doc.allMembers_append.mp hadded
      exact hunclean ⟨hname, hitem⟩
    rcases List.append_eq_append_iff.mp heq with ⟨between, -, hbetween⟩ | ⟨between, rfl, hbetween⟩
    · exact (hnotAdded hbetween).elim
    · cases between with
      | nil => exact (@hnotAdded [] hbetween.symm).elim
      | cons member between =>
        obtain ⟨rfl, -⟩ := List.cons.inj hbetween
        exact ⟨between, rfl⟩
  have hseen {before behind behind' : List (StdString × Item)} {name name' : StdString} {item item' : Item}
      {rest : List (StdString × Json)} (heq : toMembers (nulledMembers before ++ (name', item') :: behind') =
        toMembers (before ++ (name, item) :: behind) ++ rest) : name' = name ∧ toJson item' = toJson item := by
    rw [toMembers_append, toMembers_append, List.append_assoc] at heq
    obtain ⟨-, heq⟩ := List.append_inj heq (by rw [length_toMembers, length_toMembers, length_nulledMembers])
    exact Prod.mk.inj (List.cons.inj heq).1
  generalize hwhole : (Doc.object (members ++ added) : Item) = whole at h
  cases h with
  | string hcut hlt => cases hwhole
  | element h => cases hwhole
  | @name before name name' item item' _ behind hcut hlt =>
    obtain ⟨behind', rfl⟩ := hposition (fun h => hcut h.1) (Doc.object.inj hwhole)
    refine ⟨_, rfl, fun rest heq => ?_⟩
    obtain ⟨rfl, -⟩ := hseen heq
    exact absurd hlt (Nat.lt_irrefl _)
  | @member before name item item' _ behind h =>
    obtain ⟨behind', rfl⟩ := hposition (fun hclean => h.not_clean hclean.2) (Doc.object.inj hwhole)
    exact ⟨_, rfl, fun rest heq => h.toJson_ne (hseen heq).2.symm⟩

end Hardcoder.cJSON
