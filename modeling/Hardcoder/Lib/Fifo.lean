import Hardcoder.Lib.Runs

/-! A queue with a bound, and the histories of what came in and what went out. -/

universe u

/-- `q` is the queue, the front first. -/
structure Fifo (T : Type u) where
  q : List T
  appended : List T
  taken : List T

namespace Fifo
open Runs
set_option autoImplicit false

inductive Action (T : Type u) where
  | append (obj : T)
  | take

variable {T : Type u}

def new : Fifo T := ⟨[], [], []⟩

def step (bound : Nat) (f : Fifo T) : Action T → Option (Fifo T)
  | .append obj =>
    if f.q.length < bound then
      some { f with q := f.q ++ [obj], appended := f.appended ++ [obj] }
    else none
  | .take =>
    match f.q with
    | [] => none
    | obj :: q => some { f with q := q, taken := f.taken ++ [obj] }

/-- What came in has gone out in its order or is still there. -/
structure Ordered (bound : Nat) (f : Fifo T) : Prop where
  length : f.q.length ≤ bound
  appended : f.appended = f.taken ++ f.q

variable {bound : Nat}

theorem ordered_new : Ordered bound (new : Fifo T) := ⟨Nat.zero_le _, rfl⟩

theorem step_ordered {f f' : Fifo T} {a : Action T} (hf : Ordered bound f)
    (h : step bound f a = some f') : Ordered bound f' := by
  cases a with
  | append obj =>
    simp only [step] at h
    split at h
    · rename_i hroom
      obtain rfl := Option.some.inj h
      refine ⟨?_, ?_⟩
      · rw [List.length_append, List.length_singleton]
        exact hroom
      · rw [hf.appended, List.append_assoc]
    · cases h
  | take =>
    simp only [step] at h
    split at h
    · cases h
    · rename_i obj q hq
      obtain rfl := Option.some.inj h
      have hlength := hf.length
      have happended := hf.appended
      rw [hq] at hlength happended
      refine ⟨Nat.le_of_succ_le hlength, ?_⟩
      rw [happended, List.append_assoc, List.singleton_append]

theorem run_ordered {log : List (Action T)} {f f' : Fifo T} (hf : Ordered bound f)
    (h : run (step bound) f log = some f') : Ordered bound f' := by
  have hall : Along (step bound) (fun _ _ => True) f log := along_of_forall fun _ _ => trivial
  exact run_invariant (fun hf _ hstep => step_ordered hf hstep) hf hall h

end Fifo
