import Mathlib.Data.List.Induction
import Mathlib.Data.List.Nodup
import Hardcoder.HCPerfManager

/-! What the pass over `listStartTask` finds: the tasks that stay in the list, and among
those that run the best one for each resource and those that bind threads. -/

namespace Hardcoder.HCPerfManager
set_option autoImplicit false

/-- The task has begun and not stopped. -/
def PerformanceTask.runs (task : PerformanceTask) (now : Int) : Bool :=
  decide (task.startTime ≤ now) && decide (now < task.stopTime)

section Scan
variable (task : Nat → PerformanceTask)

/-- The best of the tasks for the resource: of those of the lowest level the one that
lasts longest. -/
def Wins (r : Resource) (tasks : List Nat) : Option Nat → Prop
  | none => ∀ t ∈ tasks, ¬ 0 < ((task t).level r).toInt
  | some m => m ∈ tasks ∧ 0 < ((task m).level r).toInt ∧
      ∀ t ∈ tasks, 0 < ((task t).level r).toInt →
        ((task m).level r).toInt < ((task t).level r).toInt ∨
          ((task m).level r = (task t).level r ∧ (task t).stopTime ≤ (task m).stopTime)

/-- `Scan.better`, of the tasks as they are. -/
def better (t : Nat) (r : Resource) : Option Nat → Bool
  | none => true
  | some m => ((task t).level r).toInt < ((task m).level r).toInt ∨
      ((task m).level r = (task t).level r ∧ (task m).stopTime < (task t).stopTime)

/-- The task that is chosen when the tasks are seen in this order. -/
def best (r : Resource) (tasks : List Nat) : Option Nat :=
  tasks.foldl (fun max t => if 0 < ((task t).level r).toInt ∧ better task t r max then some t else max)
    none

/-- What a pass has done when it has seen the tasks `seen`, the clock reading `clock t` at
the task `t`, in terms of the tasks as they are when it ends. -/
structure Scan.Seen (vm : Machine) (clock : Nat → Int) (started : List JInt) (z : Scan)
    (seen : List Nat) : Prop where
  tasks : ∀ t ∈ seen, z.task t = task t
  list : z.listStartTask = seen.filter fun t => decide (clock t < (task t).stopTime)
  started : ∀ h, h ∈ z.setStartedTask ↔
    h ∈ started ∧ ∀ t ∈ seen, (task t).stopTime ≤ clock t → vm.hashCode t ≠ h
  max : ∀ r, z.max r = best task r (seen.filter fun t => (task t).runs (clock t))
  bind : z.needBindCore = seen.filter fun t => (task t).runs (clock t) && (task t).binds

/-- What a pass has found when it has seen the tasks `seen`, in terms of the tasks as
they are when it ends. -/
structure Scan.Found (z : Scan) (now : Int) (seen : List Nat) : Prop where
  tasks : ∀ t ∈ seen, z.task t = task t
  list : z.listStartTask = seen.filter fun t => decide (now < (task t).stopTime)
  max : ∀ r, Wins task r (seen.filter fun t => (task t).runs now) (z.max r)
  bind : z.needBindCore = seen.filter fun t => (task t).runs now && (task t).binds

variable {task} {vm : Machine} {now : Int} {z : Scan} {t u : Nat}

namespace Scan

theorem stopTask_of_ne (h : u ≠ t) : (z.stopTask vm now t).task u = z.task u := by
  unfold stopTask
  split
  · exact Function.update_of_ne h _ _
  · rfl

theorem stopTask_self : (z.stopTask vm now t).task t = z.task t ∨
    (z.stopTask vm now t).task t = { z.task t with stopTime := now } := by
  unfold stopTask
  split
  · exact .inr (Function.update_self _ _ _)
  · exact .inl rfl

@[simp] theorem stopTask_max : (z.stopTask vm now t).max = z.max := by
  unfold stopTask
  split <;> rfl

@[simp] theorem stopTask_listStartTask :
    (z.stopTask vm now t).listStartTask = z.listStartTask := by
  unfold stopTask
  split <;> rfl

@[simp] theorem stopTask_needBindCore : (z.stopTask vm now t).needBindCore = z.needBindCore := by
  unfold stopTask
  split <;> rfl

theorem better_eq {r : Resource} {max : Option Nat} :
    z.better t r max = HCPerfManager.better z.task t r max := by
  cases max with
  | none => rfl
  | some m => rfl

theorem next_task : (z.next vm now t).task = (z.stopTask vm now t).task := by
  unfold next
  dsimp only
  split
  · rfl
  split
  · rfl
  · rfl

theorem next_listStartTask : (z.next vm now t).listStartTask =
    if now < ((z.stopTask vm now t).task t).stopTime then z.listStartTask ++ [t]
    else z.listStartTask := by
  unfold next
  dsimp only
  by_cases hlast : now < ((z.stopTask vm now t).task t).stopTime
  · have hleft : ¬ ((z.stopTask vm now t).task t).stopTime - now ≤ 0 := by omega
    rw [if_pos hlast, if_neg hleft]
    split
    · exact congrArg (· ++ [t]) stopTask_listStartTask
    · exact congrArg (· ++ [t]) stopTask_listStartTask
  · have hleft : ((z.stopTask vm now t).task t).stopTime - now ≤ 0 := by omega
    rw [if_neg hlast, if_pos hleft]
    exact stopTask_listStartTask

theorem next_of_not_runs (h : ((z.stopTask vm now t).task t).runs now = false) :
    (z.next vm now t).max = z.max ∧ (z.next vm now t).needBindCore = z.needBindCore := by
  unfold next
  dsimp only
  split
  · exact ⟨stopTask_max, stopTask_needBindCore⟩
  split
  · exact ⟨stopTask_max, stopTask_needBindCore⟩
  · rw [PerformanceTask.runs, Bool.and_eq_false_iff, decide_eq_false_iff_not,
      decide_eq_false_iff_not] at h
    omega

theorem next_of_runs (h : ((z.stopTask vm now t).task t).runs now = true) :
    (z.next vm now t).max = (fun r =>
      if 0 < (((z.stopTask vm now t).task t).level r).toInt ∧
        (z.stopTask vm now t).better t r (z.max r) then some t else z.max r) ∧
    (z.next vm now t).needBindCore =
      if ((z.stopTask vm now t).task t).binds ∧ t ∉ z.needBindCore then z.needBindCore ++ [t]
      else z.needBindCore := by
  rw [PerformanceTask.runs, Bool.and_eq_true, decide_eq_true_eq, decide_eq_true_eq] at h
  have hmax : (z.stopTask vm now t).max = z.max := stopTask_max
  have hbind : (z.stopTask vm now t).needBindCore = z.needBindCore := stopTask_needBindCore
  unfold next
  dsimp only
  rw [if_neg (by omega), if_neg (by omega), ← hmax, ← hbind]
  exact ⟨rfl, rfl⟩

theorem next_setStartedTask : (z.next vm now t).setStartedTask =
    if now < ((z.stopTask vm now t).task t).stopTime then z.setStartedTask
    else remove z.setStartedTask (vm.hashCode t) := by
  have hstop : (z.stopTask vm now t).setStartedTask = z.setStartedTask := by
    unfold stopTask
    split
    · rfl
    · rfl
  unfold next
  dsimp only
  by_cases hlast : now < ((z.stopTask vm now t).task t).stopTime
  · have hleft : ¬ ((z.stopTask vm now t).task t).stopTime - now ≤ 0 := by omega
    rw [if_pos hlast, if_neg hleft]
    split
    · exact hstop
    · exact hstop
  · have hleft : ((z.stopTask vm now t).task t).stopTime - now ≤ 0 := by omega
    rw [if_neg hlast, if_pos hleft]
    exact congrArg (remove · _) hstop

theorem foldl_next_of_notMem {clock : Nat → Int} {tasks : List Nat} (h : u ∉ tasks) :
    (tasks.foldl (fun z t => z.next vm (clock t) t) z).task u = z.task u := by
  induction tasks generalizing z with
  | nil => rfl
  | cons t tasks ih =>
    rw [List.mem_cons, not_or] at h
    rw [List.foldl_cons, ih h.2, next_task, stopTask_of_ne h.1]

end Scan

theorem Wins.skip {r : Resource} {tasks : List Nat} {max : Option Nat} (h : Wins task r tasks max)
    (hlevel : ¬ 0 < ((task t).level r).toInt) : Wins task r (tasks ++ [t]) max := by
  have hcases {u : Nat} (hu : u ∈ tasks ++ [t]) : u ∈ tasks ∨ u = t :=
    (List.mem_append.mp hu).imp_right List.mem_singleton.mp
  cases max with
  | none =>
    intro u hu
    rcases hcases hu with hu | rfl
    · exact h u hu
    · exact hlevel
  | some m =>
    refine ⟨List.mem_append_left _ h.1, h.2.1, fun u hu hpos => ?_⟩
    rcases hcases hu with hu | rfl
    · exact h.2.2 u hu hpos
    · exact absurd hpos hlevel

theorem Wins.next {r : Resource} {tasks : List Nat} {max : Option Nat} (h : Wins task r tasks max) :
    Wins task r (tasks ++ [t])
      (if 0 < ((task t).level r).toInt ∧ better task t r max then some t else max) := by
  by_cases hlevel : 0 < ((task t).level r).toInt
  swap
  · rw [if_neg fun hbest => hlevel hbest.1]
    exact h.skip hlevel
  have hcases {u : Nat} (hu : u ∈ tasks ++ [t]) : u ∈ tasks ∨ u = t :=
    (List.mem_append.mp hu).imp_right List.mem_singleton.mp
  have hself : t ∈ tasks ++ [t] := List.mem_append_right _ (List.mem_singleton.mpr rfl)
  cases max with
  | none =>
    rw [if_pos ⟨hlevel, rfl⟩]
    refine ⟨hself, hlevel, fun u hu hpos => ?_⟩
    rcases hcases hu with hu | rfl
    · exact absurd hpos (h u hu)
    · exact .inr ⟨rfl, Int.le_refl _⟩
  | some m =>
    obtain ⟨hm, hmpos, hbest⟩ := h
    have hbetter : better task t r (some m) = true ↔
        ((task t).level r).toInt < ((task m).level r).toInt ∨
          ((task m).level r = (task t).level r ∧ (task m).stopTime < (task t).stopTime) := by
      rw [better, decide_eq_true_eq]
    by_cases hb : better task t r (some m) = true
    · rw [if_pos ⟨hlevel, hb⟩]
      refine ⟨hself, hlevel, fun u hu hpos => ?_⟩
      rcases hcases hu with hu | rfl
      · rcases hbetter.mp hb with hlt | ⟨heq, hlt⟩
        · refine .inl ?_
          rcases hbest u hu hpos with hle | ⟨heq, -⟩
          · omega
          · rwa [← heq]
        · rw [← heq]
          rcases hbest u hu hpos with hle | ⟨hequ, hle⟩
          · exact .inl hle
          · exact .inr ⟨hequ, by omega⟩
      · exact .inr ⟨rfl, Int.le_refl _⟩
    · rw [if_neg fun hbest => hb hbest.2]
      rw [hbetter, not_or, not_and] at hb
      refine ⟨List.mem_append_left _ hm, hmpos, fun u hu hpos => ?_⟩
      rcases hcases hu with hu | rfl
      · exact hbest u hu hpos
      · by_cases heq : (task m).level r = (task u).level r
        · exact .inr ⟨heq, by have := hb.2 heq; omega⟩
        · have hne : ((task m).level r).toInt ≠ ((task u).level r).toInt := fun h =>
            heq (BitVec.eq_of_toInt_eq h)
          exact .inl (by have := hb.1; omega)

theorem best_nil {r : Resource} : best task r [] = none := rfl

theorem best_concat {r : Resource} {tasks : List Nat} : best task r (tasks ++ [t]) =
    if 0 < ((task t).level r).toInt ∧ better task t r (best task r tasks) then some t
    else best task r tasks := by
  rw [best, List.foldl_append]
  rfl

theorem wins_best {r : Resource} {tasks : List Nat} : Wins task r tasks (best task r tasks) := by
  induction tasks using List.reverseRecOn with
  | nil => exact fun _ h => (nomatch h)
  | append_singleton tasks t ih =>
    rw [best_concat]
    exact ih.next

theorem best_mem {r : Resource} {tasks : List Nat} {m : Nat} (h : best task r tasks = some m) :
    m ∈ tasks ∧ 0 < ((task m).level r).toInt := by
  have hwins := @wins_best task r tasks
  rw [h] at hwins
  exact ⟨hwins.1, hwins.2.1⟩

theorem better_congr {task' : Nat → PerformanceTask} {r : Resource} {max : Option Nat}
    (ht : task' t = task t) (hmax : ∀ m ∈ max, task' m = task m) :
    better task' t r max = better task t r max := by
  cases max with
  | none => rfl
  | some m => rw [better, better, ht, hmax m rfl]

theorem best_congr {task' : Nat → PerformanceTask} {r : Resource} {tasks : List Nat}
    (h : ∀ t ∈ tasks, task' t = task t) : best task' r tasks = best task r tasks := by
  induction tasks using List.reverseRecOn with
  | nil => rw [best_nil, best_nil]
  | append_singleton tasks t ih =>
    have hself := h t (List.mem_append_right _ (List.mem_singleton.mpr rfl))
    have hbest := ih fun u hu => h u (List.mem_append_left _ hu)
    have hbetter : better task' t r (best task r tasks) = better task t r (best task r tasks) :=
      better_congr hself fun m hm => h m (List.mem_append_left _ (best_mem hm).1)
    rw [best_concat, best_concat, hbest, hself, hbetter]

theorem filter_concat {p : Nat → Bool} {seen : List Nat} :
    (seen ++ [t]).filter p = if p t then seen.filter p ++ [t] else seen.filter p := by
  rw [List.filter_append, List.filter_singleton]
  cases p t
  · exact List.append_nil _
  · rfl

namespace Scan.Seen
variable {clock : Nat → Int} {started : List JInt}

theorem next {seen : List Nat} (h : z.Seen task vm clock started seen) (hnew : t ∉ seen)
    (htask : (z.next vm (clock t) t).task t = task t) :
    (z.next vm (clock t) t).Seen task vm clock started (seen ++ [t]) := by
  have hself : (z.stopTask vm (clock t) t).task t = task t := by rw [← next_task, htask]
  have hseen : ∀ u ∈ seen, (z.stopTask vm (clock t) t).task u = task u := by
    intro u hu
    rw [stopTask_of_ne fun hut : u = t => hnew (hut ▸ hu), h.tasks u hu]
  have hmax : ∀ r, ∀ m ∈ z.max r, (z.stopTask vm (clock t) t).task m = task m := by
    intro r m hm
    rw [h.max r] at hm
    exact hseen m (List.mem_of_mem_filter (best_mem hm).1)
  refine ⟨fun u hu => ?_, ?_, fun code => ?_, fun r => ?_, ?_⟩
  · rw [next_task]
    rcases List.mem_append.mp hu with hu | hu
    · exact hseen u hu
    · rw [List.mem_singleton.mp hu, hself]
  · rw [next_listStartTask, hself, h.list, filter_concat]
    simp only [decide_eq_true_eq]
  · rw [next_setStartedTask, hself, List.forall_mem_append, List.forall_mem_singleton, ← and_assoc,
      ← h.started code]
    split
    · rename_i hlast
      exact ⟨fun hcode => ⟨hcode, fun hover => absurd hlast (by omega)⟩, fun hcode => hcode.1⟩
    · rename_i hlast
      rw [remove, List.mem_filter, decide_eq_true_eq]
      exact and_congr_right fun _ => ⟨fun hne _ => hne.symm, fun hne => (hne (by omega)).symm⟩
  · rw [filter_concat]
    cases hruns : (task t).runs (clock t) with
    | false =>
      rw [(next_of_not_runs (hself ▸ hruns)).1]
      exact h.max r
    | true =>
      rw [(next_of_runs (hself ▸ hruns)).1, if_pos rfl, best_concat, ← h.max r,
        ← better_congr hself (hmax r), ← better_eq]
      dsimp only
      rw [hself]
  · rw [filter_concat]
    cases hruns : (task t).runs (clock t) with
    | false =>
      rw [(next_of_not_runs (hself ▸ hruns)).2]
      exact h.bind
    | true =>
      have hfresh : t ∉ z.needBindCore := by
        rw [h.bind]
        exact fun hmem => hnew (List.mem_of_mem_filter hmem)
      rw [(next_of_runs (hself ▸ hruns)).2, hself, h.bind, Bool.true_and]
      rw [h.bind] at hfresh
      simp only [hfresh, not_false_eq_true, and_true]

theorem foldl {rest : List Nat} : ∀ {z : Scan} {seen : List Nat},
    z.Seen (rest.foldl (fun z t => z.next vm (clock t) t) z).task vm clock started seen →
    (seen ++ rest).Nodup →
    (rest.foldl (fun z t => z.next vm (clock t) t) z).Seen
      (rest.foldl (fun z t => z.next vm (clock t) t) z).task vm clock started (seen ++ rest) := by
  induction rest with
  | nil =>
    intro z seen h _
    rwa [List.append_nil]
  | cons t rest ih =>
    intro z seen h hnodup
    have hsplit : seen ++ t :: rest = (seen ++ [t]) ++ rest := by
      rw [List.append_assoc, List.singleton_append]
    have hdisjoint := List.nodup_append.mp hnodup
    have hnew : t ∉ seen := fun ht => hdisjoint.2.2 t ht t List.mem_cons_self rfl
    have hlast : t ∉ rest := (List.nodup_cons.mp hdisjoint.2.1).1
    rw [hsplit] at hnodup ⊢
    refine ih (h.next hnew ?_) hnodup
    rw [List.foldl_cons, foldl_next_of_notMem hlast]

end Scan.Seen

theorem Sys.scan_seen {s : Sys} (task : Nat → PerformanceTask) (clock : Nat → Int) :
    s.scan.Seen task vm clock s.setStartedTask [] :=
  ⟨fun _ h => (nomatch h), rfl, fun _ => ⟨fun h => ⟨h, fun _ ht => (nomatch ht)⟩, And.left⟩,
    fun _ => rfl, rfl⟩

theorem Sys.scanned_found {s : Sys} (hnodup : s.listStartTask.Nodup) :
    (s.scanned vm now).Found (s.scanned vm now).task now s.listStartTask := by
  have hseen : (s.scanned vm now).Seen (s.scanned vm now).task vm (fun _ => now) s.setStartedTask
      s.listStartTask :=
    (s.scan_seen (s.scanned vm now).task fun _ => now).foldl hnodup
  exact ⟨hseen.tasks, hseen.list, fun r => hseen.max r ▸ wins_best, hseen.bind⟩

theorem Sys.scanned_of_notMem {s : Sys} (h : t ∉ s.listStartTask) :
    (s.scanned vm now).task t = s.task t :=
  Scan.foldl_next_of_notMem h

theorem Sys.scanned_task (vm : Machine) (now : Int) (s : Sys) (t : Nat) :
    (s.scanned vm now).task t = s.task t ∨ (s.scanned vm now).task t = { s.task t with stopTime := now } := by
  have hfold : ∀ (list : List Nat) (z : Scan),
      (list.foldl (Scan.next vm now) z).task t = z.task t ∨
        (list.foldl (Scan.next vm now) z).task t = { z.task t with stopTime := now } := by
    intro list
    induction list with
    | nil => exact fun _ => .inl rfl
    | cons u list ih =>
      intro z
      have hnext : (z.next vm now u).task t = z.task t ∨
          (z.next vm now u).task t = { z.task t with stopTime := now } := by
        rw [Scan.next_task]
        by_cases htu : t = u
        · rw [← htu]
          exact Scan.stopTask_self
        · exact .inl (Scan.stopTask_of_ne htu)
      rcases ih (z.next vm now u) with h | h
      · exact hnext.imp h.trans h.trans
      · refine .inr (h.trans ?_)
        rcases hnext with hnext | hnext
        · rw [hnext]
        · rw [hnext]
  exact hfold s.listStartTask s.scan

end Scan

end Hardcoder.HCPerfManager
