import Hardcoder.Lib.Strtol

/-! JSON texts and the documents they stand for, over any type of numbers and any type of
strings, each with the texts that its values have. -/

namespace JsonText
open Strtol (ascii)
set_option autoImplicit false

inductive Doc (ν σ : Type) where
  | null
  | bool (b : Bool)
  | number (n : ν)
  | string (s : σ)
  | array (items : List (Doc ν σ))
  | object (members : List (σ × Doc ν σ))

namespace Doc
variable {ν σ : Type}

mutual

/-- How deeply arrays and objects are nested. -/
def depth : Doc ν σ → Nat
  | array items => depthItems items + 1
  | object members => depthMembers members + 1
  | _ => 0

def depthItems : List (Doc ν σ) → Nat
  | [] => 0
  | doc :: docs => max doc.depth (depthItems docs)

def depthMembers : List (σ × Doc ν σ) → Nat
  | [] => 0
  | (_, doc) :: members => max doc.depth (depthMembers members)

end

mutual

/-- Every number and every string, the names of members included. -/
def All (P : ν → Prop) (Q : σ → Prop) : Doc ν σ → Prop
  | number n => P n
  | string s => Q s
  | array items => AllItems P Q items
  | object members => AllMembers P Q members
  | _ => True

def AllItems (P : ν → Prop) (Q : σ → Prop) : List (Doc ν σ) → Prop
  | [] => True
  | doc :: docs => doc.All P Q ∧ AllItems P Q docs

def AllMembers (P : ν → Prop) (Q : σ → Prop) : List (σ × Doc ν σ) → Prop
  | [] => True
  | (name, doc) :: members => Q name ∧ doc.All P Q ∧ AllMembers P Q members

end

mutual

theorem All.imp {P P' : ν → Prop} {Q Q' : σ → Prop} (hP : ∀ n, P n → P' n) (hQ : ∀ s, Q s → Q' s) :
    ∀ {doc : Doc ν σ}, doc.All P Q → doc.All P' Q'
  | null, _ => trivial
  | bool _, _ => trivial
  | number n, h => hP n h
  | string s, h => hQ s h
  | array _, h => AllItems.imp hP hQ h
  | object _, h => AllMembers.imp hP hQ h

theorem AllItems.imp {P P' : ν → Prop} {Q Q' : σ → Prop} (hP : ∀ n, P n → P' n)
    (hQ : ∀ s, Q s → Q' s) : ∀ {docs : List (Doc ν σ)}, AllItems P Q docs → AllItems P' Q' docs
  | [], _ => trivial
  | _ :: _, h => ⟨All.imp hP hQ h.1, AllItems.imp hP hQ h.2⟩

theorem AllMembers.imp {P P' : ν → Prop} {Q Q' : σ → Prop} (hP : ∀ n, P n → P' n)
    (hQ : ∀ s, Q s → Q' s) :
    ∀ {members : List (σ × Doc ν σ)}, AllMembers P Q members → AllMembers P' Q' members
  | [], _ => trivial
  | (name, _) :: _, h => ⟨hQ name h.1, All.imp hP hQ h.2.1, AllMembers.imp hP hQ h.2.2⟩

end

theorem depthItems_le {docs : List (Doc ν σ)} {n : Nat} (h : ∀ doc ∈ docs, doc.depth ≤ n) :
    depthItems docs ≤ n := by
  induction docs with
  | nil => exact Nat.zero_le n
  | cons doc docs ih =>
    obtain ⟨hdoc, hdocs⟩ := List.forall_mem_cons.mp h
    exact Nat.max_le.mpr ⟨hdoc, ih hdocs⟩

theorem depthMembers_le {members : List (σ × Doc ν σ)} {n : Nat}
    (h : ∀ member ∈ members, member.2.depth ≤ n) : depthMembers members ≤ n := by
  induction members with
  | nil => exact Nat.zero_le n
  | cons member members ih =>
    obtain ⟨hmember, hmembers⟩ := List.forall_mem_cons.mp h
    exact Nat.max_le.mpr ⟨hmember, ih hmembers⟩

theorem depth_le_depthItems {docs : List (Doc ν σ)} {doc : Doc ν σ} (h : doc ∈ docs) :
    doc.depth ≤ depthItems docs := by
  induction docs with
  | nil => cases h
  | cons doc' docs ih =>
    rcases List.mem_cons.mp h with rfl | h
    · exact Nat.le_max_left _ _
    · exact Nat.le_trans (ih h) (Nat.le_max_right _ _)

theorem depth_le_depthMembers {members : List (σ × Doc ν σ)} {member : σ × Doc ν σ} (h : member ∈ members) :
    member.2.depth ≤ depthMembers members := by
  induction members with
  | nil => cases h
  | cons member' members ih =>
    rcases List.mem_cons.mp h with rfl | h
    · exact Nat.le_max_left _ _
    · exact Nat.le_trans (ih h) (Nat.le_max_right _ _)

theorem depthItems_append (docs docs' : List (Doc ν σ)) :
    depthItems (docs ++ docs') = max (depthItems docs) (depthItems docs') := by
  induction docs with
  | nil => exact (Nat.zero_max _).symm
  | cons doc docs ih => rw [List.cons_append, depthItems, depthItems, ih, Nat.max_assoc]

theorem depthMembers_append (members members' : List (σ × Doc ν σ)) :
    depthMembers (members ++ members') = max (depthMembers members) (depthMembers members') := by
  induction members with
  | nil => exact (Nat.zero_max _).symm
  | cons member members ih => rw [List.cons_append, depthMembers, depthMembers, ih, Nat.max_assoc]

section All
variable {P : ν → Prop} {Q : σ → Prop}

theorem allItems_append {docs docs' : List (Doc ν σ)} :
    AllItems P Q (docs ++ docs') ↔ AllItems P Q docs ∧ AllItems P Q docs' := by
  induction docs with
  | nil => exact (iff_of_eq (true_and _)).symm
  | cons doc docs ih => rw [List.cons_append, AllItems, AllItems, ih, and_assoc]

theorem allMembers_append {members members' : List (σ × Doc ν σ)} :
    AllMembers P Q (members ++ members') ↔ AllMembers P Q members ∧ AllMembers P Q members' := by
  induction members with
  | nil => exact (iff_of_eq (true_and _)).symm
  | cons member members ih => rw [List.cons_append, AllMembers, AllMembers, ih, and_assoc, and_assoc]

theorem allItems_of_forall {docs : List (Doc ν σ)} (h : ∀ doc ∈ docs, doc.All P Q) : AllItems P Q docs := by
  induction docs with
  | nil => trivial
  | cons doc docs ih =>
    obtain ⟨hdoc, hdocs⟩ := List.forall_mem_cons.mp h
    exact ⟨hdoc, ih hdocs⟩

theorem allMembers_of_forall {members : List (σ × Doc ν σ)}
    (h : ∀ member ∈ members, Q member.1 ∧ member.2.All P Q) : AllMembers P Q members := by
  induction members with
  | nil => trivial
  | cons member members ih =>
    obtain ⟨hmember, hmembers⟩ := List.forall_mem_cons.mp h
    exact ⟨hmember.1, hmember.2, ih hmembers⟩

end All

end Doc

/-- White space -/
def Blank (text : List UInt8) : Prop := ∀ c ∈ text, c = 32 ∨ c = 9 ∨ c = 10 ∨ c = 13

/-- A text with white space around it. -/
def Around (P : List UInt8 → Prop) (text : List UInt8) : Prop :=
  ∃ w x w', text = w ++ (x ++ w') ∧ Blank w ∧ P x ∧ Blank w'

/-- A name and a value with a colon in between. -/
def Pair (P Q : List UInt8 → Prop) (text : List UInt8) : Prop :=
  ∃ t t', text = t ++ 58 :: t' ∧ Around P t ∧ Around Q t'

/-- A comma after the first. -/
def Then (P Q : List UInt8 → Prop) (text : List UInt8) : Prop :=
  ∃ t t', text = t ++ 44 :: t' ∧ P t ∧ Q t'

section Grammar
variable {ν σ : Type} (num : ν → List UInt8 → Prop) (str : σ → List UInt8 → Prop)

mutual

/-- The texts of a document. -/
def IsText : Doc ν σ → List UInt8 → Prop
  | .null, text => text = ascii "null"
  | .bool b, text => text = ascii (if b then "true" else "false")
  | .number n, text => num n text
  | .string s, text => str s text
  | .array items, text => ∃ inner, text = 91 :: (inner ++ [93]) ∧ IsItems items inner
  | .object members, text => ∃ inner, text = 123 :: (inner ++ [125]) ∧ IsMembers members inner

def IsItems : List (Doc ν σ) → List UInt8 → Prop
  | [], text => Blank text
  | [doc], text => Around (IsText doc) text
  | doc :: doc' :: docs, text => Then (Around (IsText doc)) (IsItems (doc' :: docs)) text

def IsMembers : List (σ × Doc ν σ) → List UInt8 → Prop
  | [], text => Blank text
  | [(name, doc)], text => Pair (str name) (IsText doc) text
  | (name, doc) :: member' :: members, text =>
    Then (Pair (str name) (IsText doc)) (IsMembers (member' :: members)) text

end

end Grammar

section Blank
variable {P : List UInt8 → Prop} {text : List UInt8}

theorem blank_nil : Blank [] := fun _ h => absurd h List.not_mem_nil

theorem around_self (h : P text) : Around P text :=
  ⟨[], text, [], (List.append_nil text).symm, blank_nil, h, blank_nil⟩

theorem Blank.append {w w' : List UInt8} (hw : Blank w) (hw' : Blank w') : Blank (w ++ w') :=
  fun c hc => (List.mem_append.mp hc).elim (hw c) (hw' c)

theorem Around.append_left {w : List UInt8} (hw : Blank w) (h : Around P text) : Around P (w ++ text) := by
  obtain ⟨w₁, x, w₂, rfl, hw₁, hx, hw₂⟩ := h
  exact ⟨w ++ w₁, x, w₂, (List.append_assoc _ _ _).symm, hw.append hw₁, hx, hw₂⟩

theorem Around.append_right {w : List UInt8} (h : Around P text) (hw : Blank w) : Around P (text ++ w) := by
  obtain ⟨w₁, x, w₂, rfl, hw₁, hx, hw₂⟩ := h
  exact ⟨w₁, x, w₂ ++ w, by simp only [List.append_assoc], hw₁, hx, hw₂.append hw⟩

variable {ν σ : Type} {num : ν → List UInt8 → Prop} {str : σ → List UInt8 → Prop}

/-- White space in front of the elements. -/
theorem IsItems.append_left {docs : List (Doc ν σ)} {w : List UInt8} (hw : Blank w)
    (h : IsItems num str docs text) : IsItems num str docs (w ++ text) := by
  cases docs with
  | nil => exact hw.append h
  | cons doc docs =>
    cases docs with
    | nil => exact Around.append_left hw h
    | cons doc' docs =>
      obtain ⟨t, t', rfl, ht, ht'⟩ := h
      exact ⟨w ++ t, t', (List.append_assoc _ _ _).symm, ht.append_left hw, ht'⟩

theorem Pair.append_left {P Q : List UInt8 → Prop} {w : List UInt8} (hw : Blank w) (h : Pair P Q text) :
    Pair P Q (w ++ text) := by
  obtain ⟨t, t', rfl, ht, ht'⟩ := h
  exact ⟨w ++ t, t', (List.append_assoc _ _ _).symm, ht.append_left hw, ht'⟩

theorem IsMembers.append_left {members : List (σ × Doc ν σ)} {w : List UInt8} (hw : Blank w)
    (h : IsMembers num str members text) : IsMembers num str members (w ++ text) := by
  cases members with
  | nil => exact hw.append h
  | cons member members =>
    cases members with
    | nil => exact Pair.append_left hw h
    | cons member' members =>
      obtain ⟨t, t', rfl, ht, ht'⟩ := h
      exact ⟨w ++ t, t', (List.append_assoc _ _ _).symm, ht.append_left hw, ht'⟩

end Blank

end JsonText
