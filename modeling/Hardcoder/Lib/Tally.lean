import Mathlib.Algebra.BigOperators.Group.Finset.Basic
import Mathlib.Algebra.BigOperators.Group.Finset.Piecewise
import Mathlib.Algebra.Order.BigOperators.Group.Finset

/-! Sums over threads of which finitely many are busy: what the places where they stand
weigh. -/

namespace Tally
set_option autoImplicit false

universe u v
variable {Thread : Type u} {P : Type v}

/-- The places `pc` of the threads weigh `n` together; all but finitely many of them are idle. -/
def Weighs (weight : P → Nat) (idle : P) (pc : Thread → P) (n : Nat) : Prop :=
  ∃ busy : Finset Thread, (∀ t, t ∉ busy → pc t = idle) ∧ busy.sum (fun t => weight (pc t)) = n

variable {weight : P → Nat} {idle : P} {pc : Thread → P} {n : Nat}

theorem weighs_idle : Weighs weight idle (fun _ : Thread => idle) 0 :=
  ⟨∅, fun _ _ => rfl, Finset.sum_empty⟩

theorem Weighs.le (h : Weighs weight idle pc n) (hidle : weight idle = 0) (t : Thread) :
    weight (pc t) ≤ n := by
  obtain ⟨busy, hbusy, rfl⟩ := h
  by_cases ht : t ∈ busy
  · exact Finset.single_le_sum_of_canonicallyOrdered (f := fun t => weight (pc t)) ht
  · rw [hbusy t ht, hidle]
    exact Nat.zero_le _

theorem Weighs.eq_zero (h : Weighs weight idle pc n) (hidle : weight idle = 0)
    (hpc : ∀ t, pc t = idle) : n = 0 := by
  obtain ⟨busy, -, rfl⟩ := h
  exact Finset.sum_eq_zero fun t _ => by rw [hpc t, hidle]

/-- One thread moves. -/
theorem Weighs.update [DecidableEq Thread] (h : Weighs weight idle pc n) (hidle : weight idle = 0)
    (t : Thread) (p : P) {m : Nat} (hm : m + weight (pc t) = n + weight p) :
    Weighs weight idle (Function.update pc t p) m := by
  obtain ⟨busy, hbusy, rfl⟩ := h
  refine ⟨insert t busy, fun t' ht' => ?_, ?_⟩
  · rw [Finset.mem_insert, not_or] at ht'
    rw [Function.update_of_ne ht'.1, hbusy t' ht'.2]
  · have hinsert : (insert t busy).sum (fun t => weight (pc t)) = busy.sum fun t => weight (pc t) :=
      Finset.sum_insert_of_eq_zero_if_notMem fun ht => by rw [hbusy t ht, hidle]
    have hmem : t ∈ insert t busy := Finset.mem_insert_self t busy
    have hbefore := Finset.add_sum_erase _ (fun t => weight (pc t)) hmem
    have hafter := Finset.add_sum_erase _ (fun t' => weight (Function.update pc t p t')) hmem
    have hothers : ((insert t busy).erase t).sum (fun t' => weight (Function.update pc t p t')) =
        ((insert t busy).erase t).sum fun t => weight (pc t) := by
      apply Finset.sum_congr rfl
      intro t' ht'
      rw [Function.update_of_ne (Finset.ne_of_mem_erase ht')]
    rw [hothers, Function.update_self] at hafter
    omega

end Tally
