import Hardcoder.HCPerfRunnable

/-! What a pass over `listStartTask` does, in terms of the tasks as they were before it:
which tasks it stops, which leave the list, and which it chooses from. -/

namespace Hardcoder.HCPerfRunnable
open HCPerfManager
open HCPerfStatThread (Object)
set_option autoImplicit false

section Visit
variable (vm : Machine)

/-- The hash code of the task is in the set, and it is the first task that has it. -/
def Hit (stops : List JInt) (tasks : List Nat) (t : Nat) : Prop :=
  vm.hashCode t ∈ stops ∧ tasks.find? (fun u => vm.hashCode u = vm.hashCode t) = some t

instance (stops : List JInt) (tasks : List Nat) (t : Nat) : Decidable (Hit vm stops tasks t) :=
  inferInstanceAs (Decidable (_ ∧ _))

/-- The tasks that a pass stops. -/
def hits (stops : List JInt) (tasks : List Nat) : List Nat :=
  tasks.filter fun t => Hit vm stops tasks t

/-- The tasks that were reported. -/
def reports (objects : List Object) : List Nat :=
  objects.filterMap fun
    | .task t => some t
    | .status _ => none

namespace Thread

def hits (r : Thread) : List Nat := HCPerfRunnable.hits vm r.sys.setStopTask r.sys.listStartTask

/-- The pass stops the task, or its time is over. -/
def Over (r : Thread) (rd : Readings) (t : Nat) : Prop :=
  t ∈ r.hits vm ∨ (r.sys.task t).stopTime ≤ rd.scan t

instance (r : Thread) (rd : Readings) (t : Nat) : Decidable (r.Over vm rd t) :=
  inferInstanceAs (Decidable (_ ∨ _))

/-- The tasks that are running. -/
def runningTasks (r : Thread) (rd : Readings) : List Nat :=
  r.sys.listStartTask.filter fun t => t ∉ r.hits vm ∧ (r.sys.task t).runs (rd.scan t) = true

def stopAt (r : Thread) (rd : Readings) (t : Nat) : PerformanceTask :=
  if t ∈ r.hits vm then { r.sys.task t with stopTime := rd.scan t } else r.sys.task t

end Thread

variable {vm}

theorem hit_cons {stops : List JInt} {t u : Nat} {rest : List Nat} (hne : u ≠ t) :
    Hit vm stops (t :: rest) u ↔ Hit vm (remove stops (vm.hashCode t)) rest u := by
  unfold Hit
  rw [remove, List.mem_filter, decide_eq_true_eq]
  by_cases hsame : vm.hashCode t = vm.hashCode u
  · rw [List.find?_cons_of_pos (by exact decide_eq_true hsame)]
    exact ⟨fun h => absurd (Option.some.inj h.2).symm hne, fun h => absurd hsame.symm h.1.2⟩
  · rw [List.find?_cons_of_neg (by simpa using hsame)]
    exact and_congr_left fun _ => ⟨fun h => ⟨h, fun heq => hsame heq.symm⟩, And.left⟩

theorem hit_head {stops : List JInt} {t : Nat} {rest : List Nat} :
    Hit vm stops (t :: rest) t ↔ vm.hashCode t ∈ stops := by
  unfold Hit
  rw [List.find?_cons_of_pos (by exact decide_eq_true rfl)]
  exact and_iff_left rfl

theorem remove_of_notMem {set : List JInt} {h : JInt} (hnot : h ∉ set) : remove set h = set := by
  apply List.filter_eq_self.mpr
  intro code hcode
  apply decide_eq_true
  rintro rfl
  exact hnot hcode

theorem hits_cons {stops : List JInt} {t : Nat} {rest : List Nat} (hnodup : (t :: rest).Nodup) :
    hits vm stops (t :: rest) =
      if vm.hashCode t ∈ stops then t :: hits vm (remove stops (vm.hashCode t)) rest
      else hits vm stops rest := by
  have htail : (rest.filter fun u => Hit vm stops (t :: rest) u) =
      hits vm (remove stops (vm.hashCode t)) rest := by
    apply List.filter_congr
    intro u hu
    apply decide_eq_decide.mpr
    apply hit_cons
    rintro rfl
    exact (List.nodup_cons.mp hnodup).1 hu
  rw [hits, List.filter_cons, htail]
  by_cases hstop : vm.hashCode t ∈ stops
  · rw [if_pos hstop, if_pos (decide_eq_true (hit_head.mpr hstop))]
  · rw [if_neg hstop, if_neg fun h => hstop (hit_head.mp (of_decide_eq_true h)),
      remove_of_notMem hstop]

theorem mem_hits {stops : List JInt} {tasks : List Nat} {t : Nat} :
    t ∈ hits vm stops tasks ↔ t ∈ tasks ∧ Hit vm stops tasks t := by
  rw [hits, List.mem_filter, decide_eq_true_eq]

theorem reports_append (os os' : List Object) : reports (os ++ os') = reports os ++ reports os' :=
  List.filterMap_append

/-! ### The loop -/

theorem stopTask_task {z : Scan} {now : Int} (t u : Nat) : (z.stopTask vm now t).task u =
    if u = t ∧ vm.hashCode t ∈ z.setStopTask then { z.task u with stopTime := now } else z.task u := by
  unfold Scan.stopTask
  by_cases hstop : vm.hashCode t ∈ z.setStopTask
  · rw [if_pos (List.contains_iff_mem.mpr hstop)]
    dsimp only
    rw [Function.update_apply]
    by_cases hut : u = t
    · rw [if_pos hut, if_pos ⟨hut, hstop⟩, hut]
    · rw [if_neg hut, if_neg fun h => hut h.1]
  · rw [if_neg fun h => hstop (List.contains_iff_mem.mp h), if_neg fun h => hstop h.2]

theorem next_setStopTask {z : Scan} {now : Int} {t : Nat} :
    (z.next vm now t).setStopTask = remove z.setStopTask (vm.hashCode t) := by
  have hnext : (z.next vm now t).setStopTask = (z.stopTask vm now t).setStopTask := by
    unfold Scan.next
    dsimp only
    split
    · rfl
    split
    · rfl
    · rfl
  rw [hnext, Scan.stopTask]
  split
  · rfl
  · rename_i hstop
    exact (remove_of_notMem fun h => hstop (List.contains_iff_mem.mpr h)).symm

theorem mem_remove {set : List JInt} {h code : JInt} :
    h ∈ remove set code ↔ h ∈ set ∧ h ≠ code := by
  rw [remove, List.mem_filter, decide_eq_true_eq]

section Loop
variable {rd : Readings}

theorem task_loop {rest : List Nat} (hnodup : rest.Nodup) (u : Nat) : ∀ {v : Visit},
    (v.loop vm rd rest).task u = if u ∈ hits vm v.setStopTask rest then
      { v.task u with stopTime := rd.scan u } else v.task u := by
  induction rest with
  | nil => exact rfl
  | cons t rest ih =>
    intro v
    have hnew := (List.nodup_cons.mp hnodup).1
    have hstops : (v.next vm rd t rest).setStopTask = remove v.setStopTask (vm.hashCode t) :=
      next_setStopTask
    have htask : (v.next vm rd t rest).task u = if u = t ∧ vm.hashCode t ∈ v.setStopTask then
        { v.task u with stopTime := rd.scan t } else v.task u :=
      (congrFun Scan.next_task u).trans (stopTask_task t u)
    rw [Visit.loop, ih (List.nodup_cons.mp hnodup).2, hstops, htask, hits_cons hnodup]
    by_cases hstop : vm.hashCode t ∈ v.setStopTask
    · rw [if_pos hstop]
      by_cases hut : u = t
      · have hnot : u ∉ hits vm (remove v.setStopTask (vm.hashCode t)) rest := by
          rw [hut]
          exact fun h => hnew (mem_hits.mp h).1
        rw [if_neg hnot, if_pos (And.intro hut hstop), hut, if_pos List.mem_cons_self]
      · have hne : ¬ (u = t ∧ vm.hashCode t ∈ v.setStopTask) := fun h => hut h.1
        rw [if_neg hne]
        simp only [List.mem_cons, hut, false_or]
    · have hne : ¬ (u = t ∧ vm.hashCode t ∈ v.setStopTask) := fun h => hstop h.2
      rw [if_neg hstop, if_neg hne, remove_of_notMem hstop]

theorem setStopTask_loop {rest : List Nat} {h : JInt} : ∀ {v : Visit},
    h ∈ (v.loop vm rd rest).setStopTask ↔ h ∈ v.setStopTask ∧ ∀ t ∈ rest, vm.hashCode t ≠ h := by
  induction rest with
  | nil => exact ⟨fun h => ⟨h, fun _ ht => (nomatch ht)⟩, And.left⟩
  | cons t rest ih =>
    intro v
    have hstops : (v.next vm rd t rest).setStopTask = remove v.setStopTask (vm.hashCode t) :=
      next_setStopTask
    rw [Visit.loop, ih, hstops, mem_remove, List.forall_mem_cons, and_assoc, ne_comm]

theorem reports_loop {rest : List Nat} (hnodup : rest.Nodup) : ∀ {v : Visit},
    reports (v.loop vm rd rest).objects = reports v.objects ++ hits vm v.setStopTask rest := by
  induction rest with
  | nil => exact (List.append_nil _).symm
  | cons t rest ih =>
    intro v
    have hstops : (v.next vm rd t rest).setStopTask = remove v.setStopTask (vm.hashCode t) :=
      next_setStopTask
    rw [Visit.loop, ih (List.nodup_cons.mp hnodup).2, hstops, hits_cons hnodup, Visit.next]
    dsimp only
    by_cases hstop : vm.hashCode t ∈ v.setStopTask
    · rw [if_pos hstop, if_pos (List.contains_iff_mem.mpr hstop), reports_append]
      exact List.append_assoc _ _ _
    · rw [if_neg hstop, if_neg fun h => hstop (List.contains_iff_mem.mp h),
        remove_of_notMem hstop]

end Loop

/-! ### The whole pass -/

/-- What a pass has done, in terms of the state before it. -/
structure Thread.Scanned (vm : Machine) (r : Thread) (rd : Readings) (v : Visit) : Prop where
  task : ∀ t, v.task t = r.stopAt vm rd t
  list : v.listStartTask = r.sys.listStartTask.filter fun t => ¬ r.Over vm rd t
  started : ∀ h, h ∈ v.setStartedTask ↔ h ∈ r.sys.setStartedTask ∧
    ∀ t ∈ r.sys.listStartTask, r.Over vm rd t → vm.hashCode t ≠ h
  stop : ∀ h, h ∈ v.setStopTask ↔ h ∈ r.sys.setStopTask ∧
    ∀ t ∈ r.sys.listStartTask, vm.hashCode t ≠ h
  max : ∀ k, v.max k = best r.sys.task k (r.runningTasks vm rd)
  bind : v.needBindCore = (r.runningTasks vm rd).filter fun t => (r.sys.task t).binds
  reports : reports v.objects = r.hits vm

section Scanned
variable {r : Thread} {rd : Readings} {t : Nat}

theorem stopTime_stopAt_le : (r.stopAt vm rd t).stopTime ≤ rd.scan t ↔ r.Over vm rd t := by
  unfold Thread.stopAt Thread.Over
  split
  · rename_i hhit
    exact iff_of_true (Int.le_refl _) (.inl hhit)
  · rename_i hhit
    exact (or_iff_right hhit).symm

theorem stopAt_of_notMem (h : t ∉ r.hits vm) : r.stopAt vm rd t = r.sys.task t := if_neg h

theorem runs_stopAt : (r.stopAt vm rd t).runs (rd.scan t) = true ↔
    t ∉ r.hits vm ∧ (r.sys.task t).runs (rd.scan t) = true := by
  by_cases hhit : t ∈ r.hits vm
  · refine iff_of_false (fun hruns => ?_) fun h => h.1 hhit
    rw [PerformanceTask.runs, Bool.and_eq_true, decide_eq_true_eq, decide_eq_true_eq] at hruns
    have hover := stopTime_stopAt_le.mpr (.inl hhit : r.Over vm rd t)
    omega
  · rw [stopAt_of_notMem hhit, and_iff_right hhit]

theorem notMem_hits_of_running (h : t ∈ r.runningTasks vm rd) : t ∉ r.hits vm :=
  (of_decide_eq_true (List.mem_filter.mp h).2).1

theorem scanned_spec (hnodup : r.sys.listStartTask.Nodup) :
    r.Scanned vm rd (r.scanned vm rd) := by
  have htask : ∀ t, (r.scanned vm rd).task t = r.stopAt vm rd t := fun t => task_loop hnodup t
  have hscan : (r.scanned vm rd).toScan =
      r.sys.listStartTask.foldl (fun z t => z.next vm (rd.scan t) t) r.sys.scan :=
    toScan_loop vm rd
  have hseen : (r.scanned vm rd).Seen (r.scanned vm rd).task vm rd.scan r.sys.setStartedTask
      r.sys.listStartTask := by
    rw [hscan]
    exact (r.sys.scan_seen _ rd.scan).foldl hnodup
  rw [funext htask] at hseen
  have hruns : (r.sys.listStartTask.filter fun t => (r.stopAt vm rd t).runs (rd.scan t)) =
      r.runningTasks vm rd := by
    apply List.filter_congr
    intro t _
    rw [Bool.eq_iff_iff, runs_stopAt, decide_eq_true_eq]
  refine ⟨htask, ?_, fun h => ?_, fun h => setStopTask_loop, fun k => ?_, ?_, ?_⟩
  · rw [hseen.list]
    apply List.filter_congr
    intro t _
    rw [decide_eq_decide, ← stopTime_stopAt_le, Int.not_le]
  · rw [hseen.started]
    exact and_congr_right fun _ => forall₂_congr fun t _ =>
      imp_congr_left stopTime_stopAt_le
  · rw [hseen.max, hruns]
    exact best_congr fun t ht => stopAt_of_notMem (notMem_hits_of_running ht)
  · rw [hseen.bind, ← hruns, List.filter_filter]
    apply List.filter_congr
    intro t _
    rw [Bool.and_comm, Bool.eq_iff_iff, Bool.and_eq_true, Bool.and_eq_true]
    apply and_congr_left
    intro h
    rw [stopAt_of_notMem (runs_stopAt.mp h).1]
  · rw [Thread.scanned, reports_loop hnodup]
    rfl

end Scanned

end Visit

end Hardcoder.HCPerfRunnable
