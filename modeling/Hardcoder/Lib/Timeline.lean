import Mathlib.Algebra.Group.Int.Defs
import Mathlib.Data.List.Basic

/-! A level that is changed at certain times, and how long each level was in force. -/

namespace Timeline
set_option autoImplicit false

universe u
variable {L : Type u}

structure Change (L : Type u) where
  time : Int
  set : L → L

/-- The level in force after the changes. -/
def levelAfter (level : L) (changes : List (Change L)) : L := changes.foldl (fun l c => c.set l) level

def lastTime (start : Int) (changes : List (Change L)) : Int :=
  changes.foldl (fun _ c => c.time) start

/-- How long `l` was in force from `last` up to the last of the changes. -/
def stay [DecidableEq L] : Int → L → List (Change L) → L → Int
  | _, _, [], _ => 0
  | last, level, c :: changes, l =>
    (if level = l then c.time - last else 0) + stay c.time (c.set level) changes l

@[simp] theorem levelAfter_concat (level : L) (changes : List (Change L)) (c : Change L) :
    levelAfter level (changes ++ [c]) = c.set (levelAfter level changes) := by
  rw [levelAfter, List.foldl_append]
  rfl

@[simp] theorem lastTime_concat (start : Int) (changes : List (Change L)) (c : Change L) :
    lastTime start (changes ++ [c]) = c.time := by
  rw [lastTime, List.foldl_append]
  rfl

/-- A change ends an interval in which the level before it was in force. -/
theorem stay_concat [DecidableEq L] (changes : List (Change L)) (c : Change L) (l : L) :
    ∀ (last : Int) (level : L), stay last level (changes ++ [c]) l = stay last level changes l +
      if levelAfter level changes = l then c.time - lastTime last changes else 0 := by
  induction changes with
  | nil =>
    intro last level
    rw [List.nil_append, stay, stay, Int.add_comm]
    rfl
  | cons d changes ih =>
    intro last level
    rw [List.cons_append, stay, ih, stay, Int.add_assoc]
    rfl

end Timeline
