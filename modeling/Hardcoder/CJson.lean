import Hardcoder.Amc
import Hardcoder.Lib.Rounding

/-! cJSON (cJSON.c), as far as the requests use it: a document is the tree of its items,
and what is read from its text are strings, and the nearest double of each number. -/

namespace Hardcoder.cJSON
open Rounding
set_option autoImplicit false

/-- A finite `double`. -/
structure Double where
  value : ℚ
  isFloat : IsFloat 53 (-1074) value

/-- The nearest double. -/
def Double.nearest (q : ℚ) : Double := ⟨toFloat 53 (-1074) q, isFloat_toFloat 53 (-1074) q⟩

theorem Double.ext {d e : Double} (h : d.value = e.value) : d = e := by
  cases d
  cases e
  cases h
  rfl

/-- `valuedouble` -/
inductive Number where
  | finite (d : Double)
  | infinite (negative : Bool)

/-- What `print_number` prints: 15 digits, or 17 where these do not give back the double. -/
def print_number (d : Double) : ℚ :=
  if toFloat 53 (-1074) (digits 10 15 d.value) = d.value then digits 10 15 d.value
  else digits 10 17 d.value

/-- The double can be recovered from what is printed. -/
theorem nearest_print_number (d : Double) : Double.nearest (print_number d) = d := by
  have hrecovered : toFloat 53 (-1074) (digits 10 17 d.value) = d.value :=
    toFloat_digits (by norm_num) (by norm_num) (by norm_num) d.isFloat
  apply Double.ext
  unfold print_number
  split
  · assumption
  · exact hrecovered

theorem nearest_value_eq_iff {q : ℚ} : (Double.nearest q).value = q ↔ IsFloat 53 (-1074) q :=
  toFloat_eq_self_iff (by norm_num)

inductive Json where
  | null
  | bool (b : Bool)
  | number (n : Number)
  | string (valuestring : StdString)
  | array (items : List Json)
  | object (members : List (StdString × Json))

namespace Json

mutual

/-- What is read from the text of `cJSON_Print` as long as none of its strings is cut in it
(`parsedJson_of_print`); an infinite number is printed as null. -/
def printed : Json → Json
  | null => null
  | bool b => bool b
  | number (.finite d) => number (.finite (.nearest (print_number d)))
  | number (.infinite _) => null
  | string valuestring => string valuestring
  | array items => array (printedItems items)
  | object members => object (printedMembers members)

def printedItems : List Json → List Json
  | [] => []
  | item :: items => item.printed :: printedItems items

def printedMembers : List (StdString × Json) → List (StdString × Json)
  | [] => []
  | (name, item) :: members => (name, item.printed) :: printedMembers members

end

mutual

/-- No number of the document is infinite. -/
def isFinite : Json → Bool
  | number (.infinite _) => false
  | array items => finiteItems items
  | object members => finiteMembers members
  | _ => true

def finiteItems : List Json → Bool
  | [] => true
  | item :: items => item.isFinite && finiteItems items

def finiteMembers : List (StdString × Json) → Bool
  | [] => true
  | (_, item) :: members => item.isFinite && finiteMembers members

end

mutual

theorem printed_eq_self_iff : ∀ item : Json, item.printed = item ↔ item.isFinite = true
  | null => iff_of_true rfl rfl
  | bool _ => iff_of_true rfl rfl
  | number (.finite d) => by
    rw [printed, nearest_print_number]
    exact iff_of_true rfl rfl
  | number (.infinite _) => iff_of_false (fun h => (nomatch h)) Bool.false_ne_true
  | string _ => iff_of_true rfl rfl
  | array items => by
    rw [printed, array.injEq, isFinite, printedItems_eq_self_iff items]
  | object members => by
    rw [printed, object.injEq, isFinite, printedMembers_eq_self_iff members]

theorem printedItems_eq_self_iff :
    ∀ items : List Json, printedItems items = items ↔ finiteItems items = true
  | [] => iff_of_true rfl rfl
  | item :: items => by
    rw [printedItems, finiteItems, List.cons.injEq, Bool.and_eq_true, printed_eq_self_iff item,
      printedItems_eq_self_iff items]

theorem printedMembers_eq_self_iff :
    ∀ members : List (StdString × Json),
      printedMembers members = members ↔ finiteMembers members = true
  | [] => iff_of_true rfl rfl
  | (name, item) :: members => by
    rw [printedMembers, finiteMembers, List.cons.injEq, Prod.mk.injEq, Bool.and_eq_true,
      printed_eq_self_iff item, printedMembers_eq_self_iff members]
    exact and_congr_left fun _ => and_iff_right rfl

end

end Json

end Hardcoder.cJSON
