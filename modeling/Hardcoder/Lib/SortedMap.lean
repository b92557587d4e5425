import Mathlib.Order.Lattice
import Mathlib.Tactic.Cases

/-! Finite maps as association lists kept in the order of their keys. Lookup does not
depend on the order; it only fixes in which order the entries are visited. -/

universe u v

/-- The entries, smallest key first. -/
def SortedMap (κ : Type u) (ν : Type v) := List (κ × ν)

namespace SortedMap
set_option autoImplicit false

variable {κ : Type u} {ν : Type v}

def empty : SortedMap κ ν := []

def keys (m : SortedMap κ ν) : List κ := List.map Prod.fst m

/-- An entry in front of the others. -/
def cons (k : κ) (v : ν) (m : SortedMap κ ν) : SortedMap κ ν := List.cons (k, v) m

theorem cons_induction {P : SortedMap κ ν → Prop} (hempty : P empty)
    (hcons : ∀ k v m, P m → P (cons k v m)) : ∀ m, P m
  | [] => hempty
  | (k, v) :: m => hcons k v m (cons_induction hempty hcons m)

section FindKey
variable [DecidableEq ν]

/-- The first key that has the value `w`. -/
def findKey? (m : SortedMap κ ν) (w : ν) : Option κ :=
  (List.find? (fun e => e.2 = w) m).map Prod.fst

theorem findKey?_cons_self {m : SortedMap κ ν} {k : κ} {w : ν} :
    (cons k w m).findKey? w = some k :=
  congrArg (Option.map Prod.fst) (List.find?_cons_of_pos (decide_eq_true rfl))

theorem findKey?_cons_of_ne {m : SortedMap κ ν} {k : κ} {v w : ν} (h : v ≠ w) :
    (cons k v m).findKey? w = m.findKey? w :=
  congrArg (Option.map Prod.fst) (List.find?_cons_of_neg (by simpa using h))

end FindKey

variable [LinearOrder κ]

def get? : SortedMap κ ν → κ → Option ν
  | [], _ => none
  | (k, v) :: m, a => if a = k then some v else get? m a

/-- Replaces the entry of the key, or adds one before the first larger key. -/
def set : SortedMap κ ν → κ → ν → SortedMap κ ν
  | [], a, w => [(a, w)]
  | (k, v) :: m, a, w =>
    if a = k then (a, w) :: m
    else if a < k then (a, w) :: (k, v) :: m
    else (k, v) :: set m a w

def erase (m : SortedMap κ ν) (a : κ) : SortedMap κ ν := List.filter (fun e => e.1 ≠ a) m

@[simp] theorem get?_empty (a : κ) : (empty : SortedMap κ ν).get? a = none := rfl

@[simp] theorem get?_set_self (m : SortedMap κ ν) (a : κ) (w : ν) : (m.set a w).get? a = some w := by
  induction m with
  | nil => simp [set, get?]
  | cons e m ih =>
    obtain ⟨k, v⟩ := e
    by_cases hak : a = k
    · simp [set, get?, hak]
    · by_cases hlt : a < k
      · simp [set, get?, hak, hlt]
      · simpa [set, get?, hak, hlt] using ih

theorem get?_set_of_ne (m : SortedMap κ ν) {a b : κ} (h : b ≠ a) (w : ν) :
    (m.set a w).get? b = m.get? b := by
  induction m with
  | nil => simp [set, get?, h]
  | cons e m ih =>
    obtain ⟨k, v⟩ := e
    by_cases hak : a = k
    · subst hak
      simp [set, get?, h]
    · by_cases hlt : a < k
      · simp [set, get?, hak, hlt, h]
      · simp [set, get?, hak, hlt, ih]

@[simp] theorem get?_erase_self (m : SortedMap κ ν) (a : κ) : (m.erase a).get? a = none := by
  induction m with
  | nil => rfl
  | cons e m ih =>
    obtain ⟨k, v⟩ := e
    unfold erase at ih ⊢
    rw [List.filter_cons]
    split
    · rename_i hne
      have hne : a ≠ k := fun h => by simp [h] at hne
      rw [get?, if_neg hne, ih]
    · exact ih

theorem get?_erase_of_ne (m : SortedMap κ ν) {a b : κ} (h : b ≠ a) :
    (m.erase a).get? b = m.get? b := by
  induction m with
  | nil => rfl
  | cons e m ih =>
    obtain ⟨k, v⟩ := e
    unfold erase at ih ⊢
    rw [List.filter_cons]
    split
    · simp only [get?, ih]
    · rename_i heq
      have heq : k = a := by simpa using heq
      rw [ih, get?, if_neg (heq ▸ h)]

theorem get?_erase {m : SortedMap κ ν} {a b : κ} {v : ν} (h : (m.erase a).get? b = some v) :
    b ≠ a ∧ m.get? b = some v := by
  by_cases hb : b = a
  · subst hb
    simp at h
  · exact ⟨hb, get?_erase_of_ne m hb ▸ h⟩

theorem mem_keys {m : SortedMap κ ν} {a : κ} {v : ν} (h : m.get? a = some v) : a ∈ m.keys := by
  induction m with
  | nil => cases h
  | cons e m ih =>
    obtain ⟨k, w⟩ := e
    rw [get?] at h
    split at h
    · rename_i hak
      exact hak ▸ List.mem_cons_self
    · exact List.mem_cons_of_mem _ (ih h)

section Cons
variable {m : SortedMap κ ν} {k a : κ} {v w : ν}

theorem get?_cons_self : (cons k v m).get? k = some v := if_pos rfl

theorem get?_cons_of_ne (h : a ≠ k) : (cons k v m).get? a = m.get? a := if_neg h

theorem set_cons_self : (cons k v m).set k w = cons k w m := if_pos rfl

theorem set_cons_lt (h : a < k) : (cons k v m).set a w = cons a w (cons k v m) :=
  (if_neg (ne_of_lt h)).trans (if_pos h)

theorem set_cons_gt (h : k < a) : (cons k v m).set a w = cons k v (m.set a w) :=
  (if_neg (ne_of_gt h)).trans (if_neg (not_lt_of_gt h))

end Cons

theorem keys_set {m : SortedMap κ ν} {a b : κ} {w : ν} (h : b ∈ (m.set a w).keys) :
    b = a ∨ b ∈ m.keys := by
  induction m using cons_induction with
  | hempty => exact .inl (List.mem_singleton.mp h)
  | hcons k v m ih =>
    rcases lt_trichotomy a k with hak | rfl | hka
    · rw [set_cons_lt hak] at h
      exact List.mem_cons.mp h
    · rw [set_cons_self] at h
      exact (List.mem_cons.mp h).imp_right (List.mem_cons_of_mem _)
    · rw [set_cons_gt hka] at h
      rcases List.mem_cons.mp h with rfl | h
      · exact .inr List.mem_cons_self
      · exact (ih h).imp_right (List.mem_cons_of_mem _)

theorem set_set_self (m : SortedMap κ ν) (a : κ) (v w : ν) : (m.set a v).set a w = m.set a w := by
  induction m using cons_induction with
  | hempty => exact set_cons_self
  | hcons k u m ih =>
    rcases lt_trichotomy a k with hak | rfl | hka
    · rw [set_cons_lt hak, set_cons_lt hak, set_cons_self]
    · rw [set_cons_self, set_cons_self, set_cons_self]
    · rw [set_cons_gt hka, set_cons_gt hka, set_cons_gt hka, ih]

theorem erase_cons_self {m : SortedMap κ ν} {k : κ} {v : ν} : (cons k v m).erase k = m.erase k :=
  List.filter_cons_of_neg (by simp)

theorem erase_cons_of_ne {m : SortedMap κ ν} {k a : κ} {v : ν} (h : k ≠ a) :
    (cons k v m).erase a = cons k v (m.erase a) :=
  List.filter_cons_of_pos (by simpa using h)

theorem erase_of_get?_eq_none {m : SortedMap κ ν} {a : κ} (h : m.get? a = none) : m.erase a = m := by
  induction m using cons_induction with
  | hempty => rfl
  | hcons k v m ih =>
    by_cases hak : a = k
    · subst hak
      rw [get?_cons_self] at h
      cases h
    · rw [get?_cons_of_ne hak] at h
      rw [erase_cons_of_ne (Ne.symm hak), ih h]

/-- An entry for a new key, taken out again. -/
theorem erase_set_self {m : SortedMap κ ν} {a : κ} (h : m.get? a = none) (w : ν) :
    (m.set a w).erase a = m := by
  induction m using cons_induction with
  | hempty => exact erase_cons_self
  | hcons k v m ih =>
    rcases lt_trichotomy a k with hak | rfl | hka
    · rw [set_cons_lt hak, erase_cons_self, erase_of_get?_eq_none h]
    · rw [get?_cons_self] at h
      cases h
    · rw [get?_cons_of_ne (ne_of_gt hka)] at h
      rw [set_cons_gt hka, erase_cons_of_ne (ne_of_lt hka), ih h]

/-- Smaller keys come first, and no key comes twice. -/
def Sorted (m : SortedMap κ ν) : Prop := m.keys.Pairwise (· < ·)

theorem sorted_cons {k : κ} {v : ν} {m : SortedMap κ ν} :
    (cons k v m).Sorted ↔ (∀ a ∈ m.keys, k < a) ∧ m.Sorted := List.pairwise_cons

theorem sorted_empty : (empty : SortedMap κ ν).Sorted := List.Pairwise.nil

theorem Sorted.set {m : SortedMap κ ν} (h : m.Sorted) (a : κ) (w : ν) : (m.set a w).Sorted := by
  induction m using cons_induction with
  | hempty => exact List.pairwise_singleton _ _
  | hcons k v m ih =>
    obtain ⟨hlt, hm⟩ := sorted_cons.mp h
    rcases lt_trichotomy a k with hak | rfl | hka
    · rw [set_cons_lt hak]
      refine sorted_cons.mpr ⟨fun b hb => ?_, h⟩
      rcases List.mem_cons.mp hb with rfl | hb
      · exact hak
      · exact hak.trans (hlt b hb)
    · rw [set_cons_self]
      exact sorted_cons.mpr ⟨hlt, hm⟩
    · rw [set_cons_gt hka]
      refine sorted_cons.mpr ⟨fun b hb => ?_, ih hm⟩
      rcases keys_set hb with rfl | hb
      · exact hka
      · exact hlt b hb

/-- In a sorted map the first key found is the smallest. -/
theorem findKey?_eq_some_iff [DecidableEq ν] {m : SortedMap κ ν} (h : m.Sorted) {w : ν} {a : κ} :
    m.findKey? w = some a ↔ m.get? a = some w ∧ ∀ b < a, m.get? b ≠ some w := by
  induction m using cons_induction with
  | hempty => simp [findKey?, empty, get?]
  | hcons k v m ih =>
    obtain ⟨hlt, hm⟩ := sorted_cons.mp h
    by_cases hv : v = w
    · subst hv
      rw [findKey?_cons_self]
      constructor
      · intro hk
        obtain rfl := Option.some.inj hk
        refine ⟨get?_cons_self, fun b hb hget => ?_⟩
        rw [get?_cons_of_ne (ne_of_lt hb)] at hget
        exact lt_asymm hb (hlt b (mem_keys hget))
      · rintro ⟨hget, hleast⟩
        by_cases hak : a = k
        · rw [hak]
        · rw [get?_cons_of_ne hak] at hget
          exact absurd get?_cons_self (hleast k (hlt a (mem_keys hget)))
    · have hk : m.get? k ≠ some w := fun hget => lt_irrefl k (hlt k (mem_keys hget))
      have hget (b : κ) : (cons k v m).get? b = some w ↔ m.get? b = some w := by
        by_cases hbk : b = k
        · rw [hbk, get?_cons_self]
          exact ⟨fun h => absurd (Option.some.inj h) hv, fun h => absurd h hk⟩
        · rw [get?_cons_of_ne hbk]
      rw [findKey?_cons_of_ne hv, ih hm, hget]
      exact and_congr_right fun _ => forall₂_congr fun b _ => not_congr (hget b).symm

end SortedMap
