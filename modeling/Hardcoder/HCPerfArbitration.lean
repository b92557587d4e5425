import Mathlib.Data.List.Perm.Subperm
import Mathlib.Order.Bounds.Basic
import Hardcoder.Lib.Runs
import Hardcoder.HCPerfRequests

/-! The loop arbitrates: after each pass the device is at the lowest level that a running
task asks for, for each resource, and the threads that are bound are those of the running
tasks. What the loop remembers of the last pass determines the device. -/

namespace Hardcoder.HCPerfManager
open Runs
set_option autoImplicit false

/-- The loop has taken the task from the queue, and it is running. -/
def Sys.Running (s : Sys) (t : Nat) : Prop := t ∈ s.taken ∧ (s.task t).runs s.clock = true

/-- The positive levels that running tasks ask for. -/
def Sys.asked (s : Sys) (r : Resource) : Set Int :=
  {l | 0 < l ∧ ∃ t, s.Running t ∧ ((s.task t).level r).toInt = l}

structure Sys.Arbitrated (s : Sys) : Prop where
  level : ∀ r, IsLeast (s.asked r) (s.device.level r).toInt ∨
    (s.asked r = ∅ ∧ s.device.level r = 0)
  bound : ∀ tid : JInt, 0 < tid.toInt →
    (tid ∈ s.device.bound ↔ ∃ t, s.Running t ∧ tid ∈ (s.task t).bindTids)

/-- A pass comes to its end, and leaves the device as it should be. -/
def Keeps (vm : Machine) (s : Sys) : Action → Prop
  | .loop polled now => s.clock ≤ now →
    ∃ s', step vm s (.loop polled now) = some s' ∧ s'.Arbitrated
  | _ => True

/-- The state in which a pass decides: its elements are taken and its stops applied. -/
def Sys.deciding (vm : Machine) (s : Sys) (now : Int) : Sys :=
  { s with
    clock := now
    task := (s.scanned vm now).task }

/-- A running task that binds a thread, or every running task of the lowest level that is
asked for, has less than `Integer.MAX_VALUE` left. -/
def Sys.Prompt (s : Sys) : Prop :=
  (∃ t, s.Running t ∧ (s.task t).binds = true ∧ (s.task t).Short s.clock) ∨
  ∃ r, (s.asked r).Nonempty ∧ ∀ t, s.Running t →
    IsLeast (s.asked r) ((s.task t).level r).toInt → (s.task t).Short s.clock

/-- What the running tasks ask for is there already, and no task that has stopped takes a
thread with it. -/
structure Sys.Served (s : Sys) : Prop where
  level : ∀ r l, IsLeast (s.asked r) l → (s.device.level r).toInt = l
  bound : ∀ t tid, s.Running t → tid ∈ (s.task t).bindTids → 0 < tid.toInt →
    tid ∈ s.device.bound ∧ ∀ u ∈ s.currBindCore, tid ∈ (s.task u).bindTids → s.Running u

def Heeded (vm : Machine) (s : Sys) : Action → Prop
  | .loop polled now => s.clock ≤ now →
    ((s.taking vm polled).deciding vm now).Prompt ∨ ((s.taking vm polled).deciding vm now).Served
  | _ => True

def tasks (taskQueue : List Queued) : List Nat :=
  taskQueue.filterMap fun
    | .start t => some t
    | .stop _ => none

/-- The tasks that may still run. -/
def Sys.pending (s : Sys) : List Nat := tasks s.taskQueue ++ s.listStartTask

structure PerformanceTask.Sound (task : PerformanceTask) : Prop where
  int : task.stopTime - task.startTime ≤ MAX_VALUE.toInt
  callerTid : 0 < task.callerTid.toInt
  scene_or_action : 0 < task.scene.toInt ∨ 0 < task.action.toInt

structure Inv (s : Sys) : Prop where
  nodup : s.pending.Nodup
  made : ∀ t ∈ s.pending, t < s.made
  taken : ∀ t ∈ s.taken, t < s.made
  listed : ∀ t ∈ s.listStartTask, t ∈ s.taken
  sound : ∀ t ∈ s.pending, (s.task t).Sound
  gone : ∀ t ∈ s.taken, t ∈ s.listStartTask ∨ (s.task t).stopTime ≤ s.clock
  curr : ∀ r t, s.curr r = some t → t ∈ s.taken ∧ s.device.level r = (s.task t).level r
  idle : ∀ r, s.curr r = none → s.device.level r = 0
  bind_nodup : s.currBindCore.Nodup
  bind : ∀ t ∈ s.currBindCore,
    t ∈ s.taken ∧ (s.task t).startTime ≤ s.clock ∧ (s.task t).binds = true
  bound : ∀ tid : JInt, 0 < tid.toInt →
    (tid ∈ s.device.bound ↔ ∃ t ∈ s.currBindCore, tid ∈ (s.task t).bindTids)

theorem inv_init (clock : Int) : Inv (init clock) where
  nodup := List.nodup_nil
  made := fun _ h => nomatch h
  taken := fun _ h => nomatch h
  listed := fun _ h => nomatch h
  sound := fun _ h => nomatch h
  gone := fun _ h => nomatch h
  curr := fun _ _ h => nomatch h
  idle := fun _ _ => rfl
  bind_nodup := List.nodup_nil
  bind := fun _ h => nomatch h
  bound := fun _ _ => ⟨fun h => (nomatch h), fun h => (nomatch h)⟩

section Queue
variable {vm : Machine} {s : Sys}

theorem pending_start (s : Sys) : (tasks (s.taskQueue ++ [.start s.made]) ++ s.listStartTask).Perm
    (s.made :: s.pending) := by
  rw [tasks, List.filterMap_append, List.append_assoc]
  exact List.perm_middle

theorem pending_stop (s : Sys) (hashCode : JInt) :
    ({ s with taskQueue := s.taskQueue ++ [.stop hashCode] } : Sys).pending = s.pending := by
  unfold Sys.pending tasks
  rw [List.filterMap_append]
  exact congrArg (· ++ s.listStartTask) (List.append_nil _)

theorem pending_poll_start {t : Nat} {taskQueue : List Queued}
    (hq : s.taskQueue = .start t :: taskQueue) :
    (tasks taskQueue ++ (s.listStartTask ++ [t])).Perm s.pending := by
  rw [Sys.pending, hq, ← List.append_assoc]
  exact List.perm_append_singleton _ _

theorem pending_poll_stop {hashCode : JInt} {taskQueue : List Queued}
    (hq : s.taskQueue = .stop hashCode :: taskQueue) :
    ({ s with taskQueue := taskQueue } : Sys).pending = s.pending := by
  unfold Sys.pending
  rw [hq]
  rfl

namespace Inv

theorem wait (h : Inv s) {now : Int} (hnow : s.clock ≤ now) : Inv { s with clock := now } := by
  refine ⟨h.nodup, h.made, h.taken, h.listed, h.sound, fun t ht => ?_, h.curr, h.idle,
    h.bind_nodup, fun t ht => ?_, h.bound⟩
  · exact (h.gone t ht).imp_right fun hstop => Int.le_trans hstop hnow
  · obtain ⟨htaken, hstart, hbinds⟩ := h.bind t ht
    exact ⟨htaken, Int.le_trans hstart hnow, hbinds⟩

theorem start (h : Inv s) (c : StartCall) {initTime : Int} (htime : s.clock ≤ initTime) :
    Inv (s.start c initTime) := by
  have hwait := h.wait htime
  unfold Sys.start
  dsimp only
  split
  · exact hwait
  have hold {t : Nat} (task : PerformanceTask) (ht : t < s.made) :
      Function.update s.task s.made task t = s.task t :=
    Function.update_of_ne (Nat.ne_of_lt ht) _ _
  have hperm := pending_start s
  have hpending : ∀ t ∈ tasks (s.taskQueue ++ [.start s.made]) ++ s.listStartTask,
      t = s.made ∨ t ∈ s.pending := fun t ht => List.mem_cons.mp (hperm.mem_iff.mp ht)
  refine ⟨hperm.nodup_iff.mpr (List.nodup_cons.mpr ⟨fun hmem => ?_, h.nodup⟩), fun t ht => ?_,
    fun t ht => Nat.lt_succ_of_lt (h.taken t ht), h.listed, fun t ht => ?_, fun t ht => ?_,
    fun r t ht => ?_, h.idle, h.bind_nodup, fun t ht => ?_, fun tid htid => ?_⟩
  · exact Nat.lt_irrefl _ (h.made _ hmem)
  · rcases hpending t ht with rfl | ht
    · exact Nat.lt_succ_self _
    · exact Nat.lt_succ_of_lt (h.made t ht)
  · dsimp only
    rcases hpending t ht with rfl | ht
    · rw [Function.update_self]
      have htimeout := BitVec.toInt_lt (x := c.timeout)
      refine ⟨?_, c.callerTid_pos, c.scene_or_action⟩
      dsimp only
      rw [toInt_max_value]
      omega
    · rw [hold _ (h.made t ht)]
      exact h.sound t ht
  · dsimp only
    rw [hold _ (h.taken t ht)]
    exact hwait.gone t ht
  · dsimp only
    rw [hold _ (h.taken t (h.curr r t ht).1)]
    exact h.curr r t ht
  · dsimp only
    rw [hold _ (h.taken t (h.bind t ht).1)]
    exact hwait.bind t ht
  · dsimp only
    rw [h.bound tid htid]
    refine exists_congr fun t => and_congr_right fun ht => ?_
    rw [hold _ (h.taken t (h.bind t ht).1)]

theorem stop (h : Inv s) (hashCode : JInt) : Inv (s.stop hashCode) := by
  unfold Sys.stop
  split
  · have hpending := pending_stop s hashCode
    exact ⟨hpending ▸ h.nodup, hpending ▸ h.made, h.taken, h.listed, hpending ▸ h.sound, h.gone,
      h.curr, h.idle, h.bind_nodup, h.bind, h.bound⟩
  · exact h

theorem poll (h : Inv s) {q : Queued} {taskQueue : List Queued} (hq : s.taskQueue = q :: taskQueue) :
    Inv ({ s with taskQueue := taskQueue }.poll vm q) := by
  cases q with
  | start t =>
    have hperm := pending_poll_start hq
    have ht : t ∈ s.pending :=
      hperm.mem_iff.mp (List.mem_append_right _ (List.mem_append_right _ List.mem_cons_self))
    refine ⟨hperm.nodup_iff.mpr h.nodup, fun u hu => h.made u (hperm.mem_iff.mp hu), fun u hu => ?_,
      fun u hu => ?_, fun u hu => h.sound u (hperm.mem_iff.mp hu), fun u hu => ?_, fun r u hu => ?_,
      h.idle, h.bind_nodup, fun u hu => ?_, h.bound⟩
    · rcases List.mem_append.mp hu with hu | hu
      · exact h.taken u hu
      · exact List.mem_singleton.mp hu ▸ h.made t ht
    · rcases List.mem_append.mp hu with hu | hu
      · exact List.mem_append_left _ (h.listed u hu)
      · exact List.mem_append_right _ hu
    · rcases List.mem_append.mp hu with hu | hu
      · exact (h.gone u hu).imp_left fun hmem => List.mem_append_left _ hmem
      · exact .inl (List.mem_append_right _ hu)
    · obtain ⟨htaken, hlevel⟩ := h.curr r u hu
      exact ⟨List.mem_append_left _ htaken, hlevel⟩
    · obtain ⟨htaken, hstart, hbinds⟩ := h.bind u hu
      exact ⟨List.mem_append_left _ htaken, hstart, hbinds⟩
  | stop hashCode =>
    have hpending := pending_poll_stop hq
    have hsame : Inv { s with taskQueue := taskQueue } :=
      ⟨hpending ▸ h.nodup, hpending ▸ h.made, h.taken, h.listed, hpending ▸ h.sound, h.gone,
        h.curr, h.idle, h.bind_nodup, h.bind, h.bound⟩
    simp only [Sys.poll]
    split
    · exact ⟨hsame.nodup, hsame.made, h.taken, h.listed, hsame.sound, h.gone, h.curr, h.idle,
        h.bind_nodup, h.bind, h.bound⟩
    · exact hsame

theorem taking (h : Inv s) (vm : Machine) (polled : Nat) : Inv (s.taking vm polled) := by
  induction polled generalizing s with
  | zero => exact h
  | succ polled ih =>
    unfold Sys.taking
    split
    · exact h
    · rename_i q taskQueue hq
      exact ih (h.poll hq)

end Inv

theorem clock_taking (polled : Nat) : (s.taking vm polled).clock = s.clock := by
  induction polled generalizing s with
  | zero => rfl
  | succ polled ih =>
    unfold Sys.taking
    split
    · rfl
    · rename_i q taskQueue hq
      rw [ih]
      cases q with
      | start t => rfl
      | stop hashCode =>
        simp only [Sys.poll]
        split <;> rfl

end Queue

/-- The device is as the pass has found that it should be. -/
structure Serves (z : Scan) (d : Device) : Prop where
  level : ∀ r, ∀ m ∈ z.max r, d.level r = (z.task m).level r
  idle : ∀ r, z.max r = none → d.level r = 0
  bound : ∀ tid : JInt, 0 < tid.toInt →
    (tid ∈ d.bound ↔ ∃ t ∈ z.needBindCore, tid ∈ (z.task t).bindTids)

section Pass
variable {vm : Machine} {s : Sys} {now : Int}

theorem binds_of_mem {task : PerformanceTask} {tid : JInt} (h : tid ∈ task.bindTids)
    (hpos : 0 < tid.toInt) : task.binds = true :=
  List.any_eq_true.mpr ⟨tid, h, decide_eq_true hpos⟩

theorem PerformanceTask.runs_iff {task : PerformanceTask} :
    task.runs now = true ↔ task.startTime ≤ now ∧ now < task.stopTime := by
  rw [runs, Bool.and_eq_true, decide_eq_true_eq, decide_eq_true_eq]

theorem scanned_same (vm : Machine) (now : Int) (s : Sys) (t : Nat) :
    ((s.scanned vm now).task t).bindTids = (s.task t).bindTids ∧
      ((s.scanned vm now).task t).startTime = (s.task t).startTime ∧
      ∀ r, ((s.scanned vm now).task t).level r = (s.task t).level r := by
  rcases s.scanned_task vm now t with h | h
  · rw [h]
    exact ⟨rfl, rfl, fun _ => rfl⟩
  · rw [h]
    exact ⟨rfl, rfl, fun r => by cases r <;> rfl⟩

theorem scanned_of_lt {t : Nat} (h : now < ((s.scanned vm now).task t).stopTime) :
    (s.scanned vm now).task t = s.task t := by
  rcases s.scanned_task vm now t with hsame | hstop
  · exact hsame
  · rw [hstop] at h
    exact absurd h (Int.lt_irrefl _)

namespace Inv

theorem running_iff (h : Inv s) (hnow : s.clock ≤ now) {t : Nat} :
    (s.deciding vm now).Running t ↔
      t ∈ s.listStartTask.filter fun t => ((s.scanned vm now).task t).runs now := by
  rw [List.mem_filter]
  refine and_congr_left fun hruns => ⟨fun ht => ?_, h.listed t⟩
  have hlast : now < ((s.scanned vm now).task t).stopTime := (PerformanceTask.runs_iff.mp hruns).2
  refine (h.gone t ht).resolve_right fun hstop => ?_
  rw [scanned_of_lt hlast] at hlast
  omega

theorem proper (h : Inv s) {t : Nat}
    (ht : t ∈ s.listStartTask.filter fun t => ((s.scanned vm now).task t).runs now) :
    ((s.scanned vm now).task t).Proper now := by
  obtain ⟨hlist, hruns⟩ := List.mem_filter.mp ht
  obtain ⟨hstart, hlast⟩ := PerformanceTask.runs_iff.mp hruns
  have hsound := h.sound t (List.mem_append_right _ hlist)
  rw [← scanned_of_lt hlast] at hsound
  have hint := hsound.int
  exact ⟨hlast, by omega, hsound.callerTid, hsound.scene_or_action⟩

theorem found (h : Inv s) (vm : Machine) (now : Int) :
    (s.scanned vm now).Found (s.scanned vm now).task now s.listStartTask :=
  Sys.scanned_found (List.nodup_append.mp h.nodup).2.1

theorem wins (h : Inv s) (vm : Machine) (now : Int) (r : Resource) :
    Wins (s.scanned vm now).task r
      (s.listStartTask.filter fun t => ((s.scanned vm now).task t).runs now)
      ((s.scanned vm now).max r) :=
  (h.found vm now).max r

theorem mem_needBindCore (h : Inv s) (hnow : s.clock ≤ now) {t : Nat} :
    t ∈ (s.scanned vm now).needBindCore ↔
      (s.deciding vm now).Running t ∧ ((s.scanned vm now).task t).binds = true := by
  rw [h.running_iff hnow, (h.found vm now).bind, List.mem_filter, List.mem_filter, Bool.and_eq_true,
    and_assoc]

theorem pass (h : Inv s) (hnow : s.clock ≤ now) : (s.scanned vm now).Pass now s.currBindCore := by
  refine ⟨fun r m hm => ?_, fun t ht => ?_, fun t ht hnot => ?_⟩
  · have hwins := h.wins vm now r
    rw [Option.mem_def.mp hm] at hwins
    exact ⟨h.proper hwins.1, hwins.2.1⟩
  · obtain ⟨hruns, hbinds⟩ := (h.mem_needBindCore hnow).mp ht
    exact ⟨h.proper ((h.running_iff hnow).mp hruns), hbinds⟩
  · obtain ⟨htaken, hstart, hbinds⟩ := h.bind t ht
    obtain ⟨htids, hstarts, -⟩ := scanned_same vm now s t
    have hbinds' : ((s.scanned vm now).task t).binds = true := by
      rwa [PerformanceTask.binds, htids]
    refine ⟨Int.not_lt.mp fun hlast => hnot ?_, hbinds'⟩
    have hstarted : ((s.scanned vm now).task t).startTime ≤ now := by omega
    exact (h.mem_needBindCore hnow).mpr
      ⟨⟨htaken, PerformanceTask.runs_iff.mpr ⟨hstarted, hlast⟩⟩, hbinds'⟩

theorem isLeast_max (h : Inv s) (hnow : s.clock ≤ now) {r : Resource} {m : Nat}
    (hm : (s.scanned vm now).max r = some m) : (s.deciding vm now).Running m ∧
      IsLeast ((s.deciding vm now).asked r) (((s.scanned vm now).task m).level r).toInt := by
  have hwins := h.wins vm now r
  rw [hm] at hwins
  obtain ⟨hmem, hpos, hbest⟩ := hwins
  have hruns := (h.running_iff hnow).mpr hmem
  refine ⟨hruns, ⟨hpos, m, hruns, rfl⟩, fun l hl => ?_⟩
  obtain ⟨hl, t, ht, rfl⟩ := hl
  rcases hbest t ((h.running_iff hnow).mp ht) hl with hlt | ⟨heq, -⟩
  · exact Int.le_of_lt hlt
  · exact Int.le_of_eq (congrArg BitVec.toInt heq)

theorem asked_empty (h : Inv s) (hnow : s.clock ≤ now) {r : Resource}
    (hnone : (s.scanned vm now).max r = none) : (s.deciding vm now).asked r = ∅ := by
  have hwins := h.wins vm now r
  rw [hnone] at hwins
  refine Set.eq_empty_iff_forall_notMem.mpr fun l hl => ?_
  obtain ⟨hl, t, ht, rfl⟩ := hl
  exact hwins t ((h.running_iff hnow).mp ht) hl

/-- The request is made when some task is prompt enough. -/
theorem asks_iff_prompt (h : Inv s) (hnow : s.clock ≤ now) :
    (s.scanned vm now).Asks now ↔ (s.deciding vm now).Prompt := by
  refine or_congr (exists_congr fun t => ?_) (exists_congr fun r => ?_)
  · rw [h.mem_needBindCore hnow, and_assoc]
    exact Iff.rfl
  · constructor
    · rintro ⟨m, hm, hshort⟩
      obtain ⟨hruns, hleast⟩ := h.isLeast_max hnow hm
      refine ⟨⟨_, hleast.1⟩, fun t ht htleast => ?_⟩
      have hwins := h.wins vm now r
      rw [Option.mem_def.mp hm] at hwins
      have hlevel : (((s.scanned vm now).task t).level r).toInt =
          (((s.scanned vm now).task m).level r).toInt := htleast.unique hleast
      have hpos := hwins.2.1
      rcases hwins.2.2 t ((h.running_iff hnow).mp ht) (by omega) with hlt | ⟨-, hle⟩
      · omega
      · exact Int.lt_of_le_of_lt (Int.sub_le_sub_right hle _) hshort
    · rintro ⟨⟨l, hl⟩, hall⟩
      cases hmax : (s.scanned vm now).max r with
      | none =>
        rw [h.asked_empty hnow hmax] at hl
        exact absurd hl (Set.notMem_empty l)
      | some m =>
        obtain ⟨hruns, hleast⟩ := h.isLeast_max hnow hmax
        exact ⟨m, rfl, hall m hruns hleast⟩

theorem arbitrated_iff_serves (h : Inv s) (hnow : s.clock ≤ now) {cs : List NativeCall} :
    (s.finish now (s.scanned vm now) cs).Arbitrated ↔
      Serves (s.scanned vm now) (cs.foldl Device.apply s.device) := by
  have hbound {tid : JInt} (htid : 0 < tid.toInt) :
      (∃ t, (s.deciding vm now).Running t ∧ tid ∈ ((s.scanned vm now).task t).bindTids) ↔
        ∃ t ∈ (s.scanned vm now).needBindCore, tid ∈ ((s.scanned vm now).task t).bindTids := by
    refine exists_congr fun t => and_congr_left fun hmem => ?_
    rw [h.mem_needBindCore hnow]
    exact (and_iff_left (binds_of_mem hmem htid)).symm
  constructor
  · intro harbitrated
    refine ⟨fun r m hm => ?_, fun r hnone => ?_, fun tid htid => ?_⟩
    · obtain ⟨-, hleast⟩ := h.isLeast_max hnow hm
      rcases harbitrated.level r with hlevel | ⟨hempty, -⟩
      · exact BitVec.eq_of_toInt_eq (hlevel.unique hleast)
      · exact absurd hleast.1 (Set.eq_empty_iff_forall_notMem.mp hempty _)
    · rcases harbitrated.level r with hlevel | ⟨-, hlevel⟩
      · exact absurd hlevel.1
          (Set.eq_empty_iff_forall_notMem.mp (h.asked_empty hnow hnone) _)
      · exact hlevel
    · exact (harbitrated.bound tid htid).trans (hbound htid)
  · intro hserves
    refine ⟨fun r => ?_, fun tid htid => (hserves.bound tid htid).trans (hbound htid).symm⟩
    cases hmax : (s.scanned vm now).max r with
    | none => exact .inr ⟨h.asked_empty hnow hmax, hserves.idle r hmax⟩
    | some m =>
      refine .inl ?_
      have hleast := (h.isLeast_max hnow hmax).2
      rwa [← hserves.level r m hmax] at hleast

theorem running_of_bind (h : Inv s) (hnow : s.clock ≤ now) {u : Nat} (hu : u ∈ s.currBindCore) :
    (s.deciding vm now).Running u ↔ u ∈ (s.scanned vm now).needBindCore := by
  have hbinds : ((s.scanned vm now).task u).binds = true := by
    rw [PerformanceTask.binds, (scanned_same vm now s u).1]
    exact (h.bind u hu).2.2
  rw [h.mem_needBindCore hnow, and_iff_left hbinds]

theorem served_iff (h : Inv s) (hnow : s.clock ≤ now) : (s.deciding vm now).Served ↔
    (∀ r, ∀ m ∈ (s.scanned vm now).max r,
      s.device.level r = ((s.scanned vm now).task m).level r) ∧
    ∀ t ∈ (s.scanned vm now).needBindCore, ∀ tid ∈ ((s.scanned vm now).task t).bindTids,
      0 < tid.toInt → tid ∈ s.device.bound ∧ ∀ u ∈ s.currBindCore,
        u ∉ (s.scanned vm now).needBindCore → tid ∉ ((s.scanned vm now).task u).bindTids := by
  constructor
  · refine fun hserved => ⟨fun r m hm => ?_, fun t ht tid htid hpos => ?_⟩
    · exact BitVec.eq_of_toInt_eq (hserved.level r _ (h.isLeast_max hnow hm).2)
    · obtain ⟨hruns, -⟩ := (h.mem_needBindCore hnow).mp ht
      obtain ⟨hbound, hkeep⟩ := hserved.bound t tid hruns htid hpos
      exact ⟨hbound, fun u hu hnot hmem => hnot ((h.running_of_bind hnow hu).mp (hkeep u hu hmem))⟩
  · rintro ⟨hlevel, hbound⟩
    refine ⟨fun r l hl => ?_, fun t tid ht htid hpos => ?_⟩
    · cases hmax : (s.scanned vm now).max r with
      | none => exact absurd hl.1 (Set.eq_empty_iff_forall_notMem.mp (h.asked_empty hnow hmax) l)
      | some m => exact congrArg BitVec.toInt (hlevel r m hmax) ▸
          (h.isLeast_max hnow hmax).2.unique hl
    · obtain ⟨hmem, hkeep⟩ := hbound t ((h.mem_needBindCore hnow).mpr ⟨ht, binds_of_mem htid hpos⟩)
        tid htid hpos
      refine ⟨hmem, fun u hu hutid => (h.running_of_bind hnow hu).mpr ?_⟩
      exact by_contra fun hnot => hkeep u hu hnot hutid

theorem unchanged_serves (h : Inv s) (hnow : s.clock ≤ now)
    (hsame : unchanged s (s.scanned vm now)
      (s.currBindCore.filter fun t => t ∉ (s.scanned vm now).needBindCore) = true) :
    Serves (s.scanned vm now) s.device ∧ (s.deciding vm now).Served := by
  rw [unchanged, decide_eq_true_eq] at hsame
  obtain ⟨hcpu, hgpu, hio, hlength, hstop⟩ := hsame
  have hcurr : ∀ r, (s.scanned vm now).max r = s.curr r := by
    intro r
    cases r with
    | cpu => exact hcpu
    | gpu => exact hgpu
    | io => exact hio
  have hsubset : s.currBindCore ⊆ (s.scanned vm now).needBindCore := by
    intro t ht
    have hnot := List.filter_eq_nil_iff.mp hstop t ht
    rw [decide_eq_true_eq, not_not] at hnot
    exact hnot
  have hperm : s.currBindCore.Perm (s.scanned vm now).needBindCore :=
    (List.subperm_of_subset h.bind_nodup hsubset).perm_of_length_le (Nat.le_of_eq hlength.symm)
  have hserves : Serves (s.scanned vm now) s.device := by
    refine ⟨fun r m hm => ?_, fun r hnone => ?_, fun tid htid => ?_⟩
    · rw [(h.curr r m ((hcurr r).symm.trans hm)).2, (scanned_same vm now s m).2.2]
    · exact h.idle r ((hcurr r).symm.trans hnone)
    · rw [h.bound tid htid]
      refine exists_congr fun t => ?_
      rw [hperm.mem_iff, (scanned_same vm now s t).1]
  refine ⟨hserves, (h.served_iff hnow).mpr ⟨hserves.level, fun t ht tid htid hpos => ?_⟩⟩
  exact ⟨(hserves.bound tid hpos).mpr ⟨t, ht, htid⟩, fun u hu hnot => absurd (hsubset hu) hnot⟩

/-- When something has changed, the calls leave the device as it should be just when the
request is made, or there is nothing to ask for. -/
theorem changed_serves (h : Inv s) (hnow : s.clock ≤ now) {d : Device}
    (hleft : Left (s.scanned vm now) s now d) :
    Serves (s.scanned vm now) d ↔ (s.deciding vm now).Prompt ∨ (s.deciding vm now).Served := by
  have hidle : ∀ r, (s.scanned vm now).max r = none → d.level r = 0 := by
    intro r hnone
    cases hcurr : s.curr r with
    | none => rw [hleft.idle r hnone hcurr, h.idle r hcurr]
    | some t => exact hleft.cancelled r hnone (by rw [hcurr]; exact Option.some_ne_none t)
  -- a thread that stays bound is that of a task that was bound and runs on
  have hstays : ∀ tid : JInt, 0 < tid.toInt → tid ∈ s.device.bound →
      (∀ u ∈ s.currBindCore, u ∉ (s.scanned vm now).needBindCore →
        tid ∉ ((s.scanned vm now).task u).bindTids) →
      ∃ t ∈ (s.scanned vm now).needBindCore, tid ∈ ((s.scanned vm now).task t).bindTids := by
    intro tid htid hbound hkeep
    obtain ⟨u, hu, hmem⟩ := (h.bound tid htid).mp hbound
    rw [← (scanned_same vm now s u).1] at hmem
    exact ⟨u, by_contra fun hnot => hkeep u hu hnot hmem, hmem⟩
  rw [← h.asks_iff_prompt hnow, h.served_iff hnow]
  by_cases hasks : (s.scanned vm now).Asks now
  · refine iff_of_true ⟨hleft.asked hasks, hidle, fun tid htid => ?_⟩ (.inl hasks)
    rw [hleft.bound tid]
    constructor
    · rintro (⟨hbound, hkeep⟩ | ⟨-, hneed⟩)
      · exact hstays tid htid hbound hkeep
      · exact hneed
    · exact fun hneed => .inr ⟨hasks, hneed⟩
  · have hbound : ∀ tid, tid ∈ d.bound ↔ tid ∈ s.device.bound ∧ ∀ u ∈ s.currBindCore,
        u ∉ (s.scanned vm now).needBindCore → tid ∉ ((s.scanned vm now).task u).bindTids := by
      intro tid
      rw [hleft.bound tid, or_iff_left fun hmade => hasks hmade.1]
    have hlevel {r : Resource} {m : Nat} (hm : m ∈ (s.scanned vm now).max r) :
        d.level r = s.device.level r :=
      hleft.kept hasks r fun hnone => by rw [hnone] at hm; cases hm
    rw [or_iff_right hasks]
    constructor
    · refine fun hserves => ⟨fun r m hm => ?_, fun t ht tid htid hpos => ?_⟩
      · rw [← hlevel hm, hserves.level r m hm]
      · exact (hbound tid).mp ((hserves.bound tid hpos).mpr ⟨t, ht, htid⟩)
    · rintro ⟨hlevels, hbinds⟩
      refine ⟨fun r m hm => ?_, hidle, fun tid htid => ?_⟩
      · rw [hlevel hm, hlevels r m hm]
      · rw [hbound tid]
        constructor
        · exact fun hmem => hstays tid htid hmem.1 hmem.2
        · rintro ⟨t, ht, hmem⟩
          exact hbinds t ht tid hmem htid

theorem endLoop (h : Inv s) (vm : Machine) (hnow : s.clock ≤ now) : ∃ cs,
    s.endLoop vm now = some (s.finish now (s.scanned vm now) cs) ∧
    (Serves (s.scanned vm now) (cs.foldl Device.apply s.device) ↔
      (s.deciding vm now).Prompt ∨ (s.deciding vm now).Served) := by
  cases hchanged : unchanged s (s.scanned vm now)
      (s.currBindCore.filter fun t => t ∉ (s.scanned vm now).needBindCore) with
  | true =>
    obtain ⟨hserves, hserved⟩ := h.unchanged_serves hnow hchanged
    refine ⟨[], ?_, iff_of_true hserves (.inr hserved)⟩
    rw [Sys.endLoop, calls, hchanged]
    rfl
  | false =>
    obtain ⟨cs, hcalls, hleft⟩ := calls_spec vm (h.pass hnow) hchanged
    refine ⟨cs, ?_, h.changed_serves hnow hleft⟩
    rw [Sys.endLoop, hcalls]
    rfl

theorem finish (h : Inv s) (hnow : s.clock ≤ now) {cs : List NativeCall}
    (hserves : Serves (s.scanned vm now) (cs.foldl Device.apply s.device)) :
    Inv (s.finish now (s.scanned vm now) cs) := by
  have hfound := h.found vm now
  obtain ⟨hqueued, hlisted, hdisjoint⟩ := List.nodup_append.mp h.nodup
  have hlist : ∀ t ∈ (s.scanned vm now).listStartTask,
      t ∈ s.listStartTask ∧ now < ((s.scanned vm now).task t).stopTime := by
    intro t ht
    rw [hfound.list] at ht
    exact ⟨List.mem_of_mem_filter ht, of_decide_eq_true (List.mem_filter.mp ht).2⟩
  have hpending : ∀ t ∈ tasks s.taskQueue ++ (s.scanned vm now).listStartTask,
      t ∈ s.pending ∧ (s.scanned vm now).task t = s.task t := by
    intro t ht
    rcases List.mem_append.mp ht with ht | ht
    · refine ⟨List.mem_append_left _ ht, Sys.scanned_of_notMem fun hmem => ?_⟩
      exact hdisjoint t ht t hmem rfl
    · obtain ⟨hmem, hlast⟩ := hlist t ht
      exact ⟨List.mem_append_right _ hmem, scanned_of_lt hlast⟩
  refine ⟨List.nodup_append.mpr ⟨hqueued, ?_, fun a ha b hb => hdisjoint a ha b (hlist b hb).1⟩,
    fun t ht => h.made t (hpending t ht).1, h.taken, fun t ht => h.listed t (hlist t ht).1,
    fun t ht => ?_, fun t ht => ?_, fun r t ht => ?_, hserves.idle, ?_, fun t ht => ?_,
    hserves.bound⟩
  · show (s.scanned vm now).listStartTask.Nodup
    rw [hfound.list]
    exact hlisted.filter _
  · obtain ⟨hmem, hsame⟩ := hpending t ht
    show ((s.scanned vm now).task t).Sound
    rw [hsame]
    exact h.sound t hmem
  · -- a task that leaves the list has stopped
    by_cases hlast : now < ((s.scanned vm now).task t).stopTime
    · refine .inl ?_
      have hmem : t ∈ s.listStartTask := by
        refine (h.gone t ht).resolve_right fun hstop => ?_
        rw [scanned_of_lt hlast] at hlast
        omega
      show t ∈ (s.scanned vm now).listStartTask
      rw [hfound.list]
      exact List.mem_filter.mpr ⟨hmem, decide_eq_true hlast⟩
    · exact .inr (Int.not_lt.mp hlast)
  · exact ⟨(h.isLeast_max hnow ht).1.1, hserves.level r t ht⟩
  · show (s.scanned vm now).needBindCore.Nodup
    rw [hfound.bind]
    exact hlisted.filter _
  · obtain ⟨⟨htaken, hruns⟩, hbinds⟩ := (h.mem_needBindCore hnow).mp ht
    exact ⟨htaken, (PerformanceTask.runs_iff.mp hruns).1, hbinds⟩

end Inv

theorem step_loop (h : Inv s) (vm : Machine) (polled : Nat) (hnow : s.clock ≤ now) : ∃ s',
    step vm s (.loop polled now) = some s' ∧
    (s'.Arbitrated ↔ Heeded vm s (.loop polled now)) ∧ (s'.Arbitrated → Inv s') := by
  have htaking := h.taking vm polled
  have hclock : (s.taking vm polled).clock ≤ now := by rwa [clock_taking]
  obtain ⟨cs, hend, hserves⟩ := htaking.endLoop vm hclock
  refine ⟨_, (if_pos hnow).trans hend, ?_, fun harbitrated => ?_⟩
  · rw [htaking.arbitrated_iff_serves hclock, hserves]
    exact ⟨fun hheeded _ => hheeded, fun hheeded => hheeded hnow⟩
  · exact htaking.finish hclock ((htaking.arbitrated_iff_serves hclock).mp harbitrated)

theorem heeded_iff_keeps (h : Inv s) {a : Action} : Heeded vm s a ↔ Keeps vm s a := by
  cases a with
  | start c initTime => exact Iff.rfl
  | stop hashCode => exact Iff.rfl
  | loop polled now =>
    constructor
    · intro hheeded hnow
      obtain ⟨s', hstep, hiff, -⟩ := step_loop h vm polled hnow
      exact ⟨s', hstep, hiff.mpr hheeded⟩
    · intro hkeeps hnow
      obtain ⟨s', hstep, harbitrated⟩ := hkeeps hnow
      obtain ⟨s'', hstep', hiff, -⟩ := step_loop h vm polled hnow
      obtain rfl := Option.some.inj (hstep.symm.trans hstep')
      exact hiff.mp harbitrated hnow

theorem Inv.step {s' : Sys} (h : Inv s) {a : Action} (hheeded : Heeded vm s a)
    (hstep : step vm s a = some s') : Inv s' := by
  cases a with
  | start c initTime =>
    obtain ⟨htime, hstep⟩ := Option.ite_none_right_eq_some.mp hstep
    obtain rfl := Option.some.inj hstep
    exact h.start c htime
  | stop hashCode =>
    obtain rfl := Option.some.inj hstep
    exact h.stop hashCode
  | loop polled now =>
    obtain ⟨hnow, -⟩ := Option.ite_none_right_eq_some.mp hstep
    obtain ⟨s'', hstep', hiff, hinv⟩ := step_loop h vm polled hnow
    obtain rfl := Option.some.inj (hstep.symm.trans hstep')
    exact hinv (hiff.mpr hheeded)

/-- In a run every pass leaves the device as it should be just when each one makes its
request, or has nothing to ask for that is not there. -/
theorem arbitration_iff_heeded (vm : Machine) (clock : Int) (as : List Action) :
    Along (step vm) (Keeps vm) (init clock) as ↔
      Along (step vm) (Heeded vm) (init clock) as := by
  have hstep : ∀ {s a s'}, Inv s → Heeded vm s a → step vm s a = some s' → Inv s' :=
    fun hs hheeded hstep => hs.step hheeded hstep
  exact (along_congr hstep (fun hs => heeded_iff_keeps hs) (inv_init clock)).symm

end Pass

/-- A virtual machine that hands out hash codes in turn. -/
def exampleMachine : Machine := ⟨fun t => BitVec.ofNat 32 (t + 1), id, fun _ => List.Perm.refl _⟩

/-- The highest level of the processor, for as long as an `int` can say. -/
def longCall : StartCall :=
  ⟨0, 1, 0, 0, some [], MAX_VALUE, 1, 0, 1, by decide, by decide⟩

/-- The task is taken in the millisecond in which it was made: the request is left out, and
the next pass, for which nothing has changed, does not make up for it. -/
theorem arbitration_longCall : ∃ s,
    run (step exampleMachine) (init 0) [.start longCall 5, .loop 1 5, .loop 0 6] = some s ∧
      s.Running 0 ∧ (s.task 0).cpuLevel = 1 ∧ s.device.level .cpu = 0 ∧ ¬ s.Arbitrated := by
  have hrun : (run (step exampleMachine) (init 0) [.start longCall 5, .loop 1 5, .loop 0 6]).map
      (fun s => (s.taken, (s.task 0).runs s.clock, (s.task 0).cpuLevel, s.device.level .cpu)) =
      some ([0], true, 1, 0) := by decide +kernel
  obtain ⟨s, hs, hstate⟩ := Option.map_eq_some_iff.mp hrun
  simp only [Prod.mk.injEq] at hstate
  obtain ⟨htaken, hruns, hlevel, hdevice⟩ := hstate
  have hrunning : s.Running 0 := ⟨by rw [htaken]; exact List.mem_cons_self, hruns⟩
  refine ⟨s, hs, hrunning, hlevel, hdevice, fun h => ?_⟩
  have hasked : (1 : Int) ∈ s.asked .cpu := by
    refine ⟨by decide, 0, hrunning, ?_⟩
    rw [PerformanceTask.level, hlevel]
    decide
  rcases h.level .cpu with hleast | ⟨hempty, -⟩
  · have hpos := hleast.1.1
    rw [hdevice] at hpos
    exact absurd hpos (by decide)
  · exact Set.eq_empty_iff_forall_notMem.mp hempty 1 hasked

end Hardcoder.HCPerfManager
