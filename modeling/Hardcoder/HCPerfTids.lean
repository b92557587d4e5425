import Hardcoder.HCPerfCalls

/-! The thread ids of the native calls. The arrays are as long as those of all the tasks of
the set, and filled with the whole array of each task that is not skipped. -/

namespace Hardcoder.HCPerfRunnable
open HCPerfManager Runs
set_option autoImplicit false

/-- The positive thread ids of the tasks. -/
def positiveTids (task : Nat → PerformanceTask) (set : List Nat) : List JInt :=
  set.flatMap fun t => (task t).bindTids.filter fun tid => 0 < tid.toInt

/-- The arrays passed to `cancelCpuCoreForThread`. -/
def cancelledTids (calls : List NativeCall) : List (List JInt) :=
  calls.filterMap fun
    | .cancelCpuCoreForThread tids => some tids
    | _ => none

/-- The arrays passed to `requestUnifyCpuIOThreadCoreGpu`. -/
def requestedTids (calls : List NativeCall) : List (List JInt) :=
  calls.filterMap fun
    | .requestUnifyCpuIOThreadCoreGpu _ _ _ tids _ _ => some tids
    | _ => none

section Tids
variable (vm : Machine)

/-- The arrays hold the positive thread ids of the tasks that left the set of those bound,
and of those in it that have not expired, and nothing else. -/
structure ExactArrays (rd : Readings) (currBindCore : List Nat) (z : Scan) (calls : List NativeCall) :
    Prop where
  cancelled : ∀ tids ∈ cancelledTids calls,
    tids.Perm (positiveTids z.task (currBindCore.filter fun t => t ∉ z.needBindCore))
  requested : ∀ tids ∈ requestedTids calls,
    tids.Perm (positiveTids z.task
      (z.needBindCore.filter fun t => rd.request t < (z.task t).stopTime))

/-- The pass that the action makes passes exact arrays. -/
def ExactTids (r : Thread) : Action → Prop
  | .loop polled rd =>
    let r := r.taking vm polled
    let z := (r.scanned vm rd).toScan
    r.running = true → ExactArrays rd r.sys.currBindCore z (requests vm rd r.sys z).calls
  | _ => True

/-- The thread ids of the task are all positive. -/
def PositiveTids (task : PerformanceTask) : Prop := ∀ tid ∈ task.bindTids, 0 < tid.toInt

/-- The tasks of a call that the pass makes are not skipped, and their thread ids are all
positive. -/
structure Thread.CleanArrays (r : Thread) (rd : Readings) : Prop where
  cancelled : rd.checkEnv .cancelCpuCoreForThread = true → ∀ t ∈ r.unbound vm rd,
    (r.stopAt vm rd t).stopTime ≤ rd.cancel t ∧ PositiveTids (r.sys.task t)
  requested : ¬ r.Same vm rd → r.Requests vm rd → rd.checkEnv .requestUnifyCpuIOThreadCoreGpu = true →
    ∀ t ∈ r.bindTasks vm rd, rd.request t < (r.sys.task t).stopTime ∧ PositiveTids (r.sys.task t)

def CleanTids (r : Thread) : Action → Prop
  | .loop polled rd =>
    let r := r.taking vm polled
    r.running = true → r.CleanArrays vm rd
  | _ => True

end Tids

/-! ### A filled array -/

section Filled
variable {task : Nat → PerformanceTask} {set set' : List Nat}

theorem pos_of_mem_positiveTids {tid : JInt} (h : tid ∈ positiveTids task set) : 0 < tid.toInt := by
  obtain ⟨t, -, htid⟩ := List.mem_flatMap.mp h
  exact of_decide_eq_true (List.mem_filter.mp htid).2

theorem positiveTids_of_positive (h : ∀ t ∈ set, PositiveTids (task t)) :
    positiveTids task set = set.flatMap fun t => (task t).bindTids := by
  apply List.flatMap_congr
  intro t ht
  apply List.filter_eq_self.mpr
  intro tid htid
  exact decide_eq_true (h t ht tid htid)

theorem positiveTids_congr {task' : Nat → PerformanceTask}
    (h : ∀ t ∈ set, (task' t).bindTids = (task t).bindTids) :
    positiveTids task' set = positiveTids task set := by
  apply List.flatMap_congr
  intro t ht
  rw [h t ht]

/-- The array of a task that is skipped leaves zeros behind. -/
theorem lt_tidCount {keep : Nat → Bool} (hperm : set'.Perm set) {t : Nat} (ht : t ∈ set)
    (hbinds : (task t).binds = true) (hskip : keep t = false) :
    ((set'.filter keep).flatMap fun t => (task t).bindTids).length < tidCount task set := by
  have hsplit := (List.filter_append_perm keep set').trans hperm
  have hlength := (hsplit.flatMap_right fun t => (task t).bindTids).length_eq
  rw [List.flatMap_append, List.length_append, length_flatMap_bindTids task set] at hlength
  obtain ⟨tid, htid, -⟩ := List.any_eq_true.mp hbinds
  have hskipped : t ∈ set'.filter fun t => !keep t :=
    List.mem_filter.mpr ⟨hperm.mem_iff.mpr ht, by rw [hskip]; rfl⟩
  have hpos : 0 < ((set'.filter fun t => !keep t).flatMap fun t => (task t).bindTids).length :=
    List.length_pos_of_mem (List.mem_flatMap.mpr ⟨t, hskipped, htid⟩)
  omega

theorem forall_mem_filled {length : Nat} {tids : List JInt} (h : ∀ tid ∈ filled length tids, 0 < tid.toInt) :
    length ≤ tids.length := by
  by_contra hlt
  have hzero : (0 : JInt) ∈ filled length tids :=
    List.mem_append_right _ (List.mem_replicate.mpr ⟨by omega, rfl⟩)
  exact absurd (h 0 hzero) (by decide)

/-- The array of the tasks of a set that are kept is that of their positive thread ids just
when all are kept and have no others. -/
theorem filled_perm_iff {keep : Nat → Bool} (hperm : set'.Perm set)
    (hbinds : ∀ t ∈ set, (task t).binds = true) {target : List JInt}
    (htarget : ∀ tid ∈ target, 0 < tid.toInt)
    (hall : (∀ t ∈ set, keep t = true) → target = positiveTids task set) :
    (filled (tidCount task set) ((set'.filter keep).flatMap fun t => (task t).bindTids)).Perm target ↔
      ∀ t ∈ set, keep t = true ∧ PositiveTids (task t) := by
  constructor
  · intro h
    have hpos : ∀ tid ∈ filled (tidCount task set)
        ((set'.filter keep).flatMap fun t => (task t).bindTids), 0 < tid.toInt :=
      fun tid htid => htarget tid (h.mem_iff.mp htid)
    intro t ht
    have hkeep : keep t = true := by
      cases hskip : keep t with
      | true => rfl
      | false =>
        have hlt := lt_tidCount hperm ht (hbinds t ht) hskip
        have hle := forall_mem_filled hpos
        omega
    refine ⟨hkeep, fun tid htid => hpos tid (List.mem_append_left _ ?_)⟩
    exact List.mem_flatMap.mpr ⟨t, List.mem_filter.mpr ⟨hperm.mem_iff.mpr ht, hkeep⟩, htid⟩
  · intro h
    have hfilter : set'.filter keep = set' :=
      List.filter_eq_self.mpr fun t ht => (h t (hperm.mem_iff.mp ht)).1
    rw [hall fun t ht => (h t ht).1, positiveTids_of_positive fun t ht => (h t ht).2, hfilter,
      filled_perm hperm]
    exact hperm.flatMap_right _

end Filled

section Pass
variable {vm : Machine} {rd : Readings} {r : Thread}

theorem mem_cancelledTids {calls : List NativeCall} {tids : List JInt} :
    tids ∈ cancelledTids calls ↔ .cancelCpuCoreForThread tids ∈ calls := by
  rw [cancelledTids, List.mem_filterMap]
  constructor
  · rintro ⟨c, hc, hsome⟩
    cases c with
    | cancelCpuCoreForThread tids' =>
      obtain rfl := Option.some.inj hsome
      exact hc
    | requestUnifyCpuIOThreadCoreGpu | cancelHighFreq => cases hsome
  · exact fun hc => ⟨_, hc, rfl⟩

theorem cancelledTids_requests (h : Valid r) {tids : List JInt} :
    tids ∈ cancelledTids (requests vm rd r.sys (r.scanned vm rd).toScan).calls ↔
      r.unbound vm rd ≠ [] ∧ rd.checkEnv .cancelCpuCoreForThread = true ∧
        tids = r.cancelList vm rd := by
  rw [mem_cancelledTids, cancelCpuCoreForThread_mem h]

theorem requestedTids_requests (h : Valid r) {tids : List JInt} :
    tids ∈ requestedTids (requests vm rd r.sys (r.scanned vm rd).toScan).calls ↔
      ¬ r.Same vm rd ∧ r.Requests vm rd ∧ rd.checkEnv .requestUnifyCpuIOThreadCoreGpu = true ∧
        tids = r.tidList vm rd := by
  rw [requestedTids, filterMap_requests h (fun _ => rfl) fun _ _ => rfl]
  exact and_congr_right fun _ => and_congr_right fun _ => and_congr_right fun _ =>
    Option.some_inj.trans eq_comm

theorem exactArrays_iff (h : Valid r) :
    ExactArrays rd r.sys.currBindCore (r.scanned vm rd).toScan
        (requests vm rd r.sys (r.scanned vm rd).toScan).calls ↔ r.CleanArrays vm rd := by
  have hscan := @scanned_spec vm r rd h.list_nodup
  have hbind : (r.scanned vm rd).needBindCore = r.bindTasks vm rd := hscan.bind
  have htids : ∀ t, ((r.scanned vm rd).task t).bindTids = (r.sys.task t).bindTids := fun t => by
    rw [hscan.task, bindTids_stopAt]
  have hunbound : (r.sys.currBindCore.filter fun t => t ∉ (r.scanned vm rd).needBindCore) =
      r.unbound vm rd := by
    rw [hbind]
    rfl
  have hlasting : ((r.scanned vm rd).needBindCore.filter fun t =>
      rd.request t < ((r.scanned vm rd).task t).stopTime) =
      (r.bindTasks vm rd).filter fun t => rd.request t < (r.sys.task t).stopTime := by
    rw [hbind]
    exact List.filter_congr fun t ht => by rw [(scanned_bindTasks h ht).1]
  have hcancel : (r.cancelList vm rd).Perm (positiveTids r.sys.task (r.unbound vm rd)) ↔
      ∀ t ∈ r.unbound vm rd,
        (r.stopAt vm rd t).stopTime ≤ rd.cancel t ∧ PositiveTids (r.sys.task t) := by
    rw [Thread.cancelList, filled_perm_iff (vm.iterator_perm _) (fun t ht => binds_unbound h ht)
      (fun tid htid => pos_of_mem_positiveTids htid) fun _ => rfl]
    simp only [decide_eq_true_eq]
  have hrequest : (r.tidList vm rd).Perm (positiveTids r.sys.task
      ((r.bindTasks vm rd).filter fun t => rd.request t < (r.sys.task t).stopTime)) ↔
      ∀ t ∈ r.bindTasks vm rd,
        rd.request t < (r.sys.task t).stopTime ∧ PositiveTids (r.sys.task t) := by
    have hbinds : ∀ t ∈ r.bindTasks vm rd, (r.sys.task t).binds = true :=
      fun t ht => (List.mem_filter.mp ht).2
    rw [Thread.tidList, filled_perm_iff (vm.iterator_perm _) hbinds (fun tid htid =>
      pos_of_mem_positiveTids htid) fun hall => by rw [List.filter_eq_self.mpr hall]]
    simp only [decide_eq_true_eq]
  constructor
  · intro hexact
    refine ⟨fun hflag t ht => ?_, fun hchanged hr hflag => ?_⟩
    · have hperm := hexact.cancelled _ ((cancelledTids_requests h).mpr
        ⟨List.ne_nil_of_mem ht, hflag, rfl⟩)
      rw [hunbound, positiveTids_congr fun t _ => htids t, hcancel] at hperm
      exact hperm t ht
    · have hperm := hexact.requested _ ((requestedTids_requests h).mpr ⟨hchanged, hr, hflag, rfl⟩)
      rw [hlasting, positiveTids_congr fun t _ => htids t, hrequest] at hperm
      exact hperm
  · intro hclean
    refine ⟨fun tids hmem => ?_, fun tids hmem => ?_⟩
    · obtain ⟨-, hflag, rfl⟩ := (cancelledTids_requests h).mp hmem
      rw [hunbound, positiveTids_congr fun t _ => htids t, hcancel]
      exact hclean.cancelled hflag
    · obtain ⟨hchanged, hr, hflag, rfl⟩ := (requestedTids_requests h).mp hmem
      rw [hlasting, positiveTids_congr fun t _ => htids t, hrequest]
      exact hclean.requested hchanged hr hflag

end Pass

/-- In a run every array of thread ids is exact if and only if in each of its passes the tasks
of a call are not skipped and have positive thread ids only. -/
theorem exactTids_iff_clean (vm : Machine) (clock : Int) (as : List Action) :
    Along (step vm) (ExactTids vm) (init clock) as ↔ Along (step vm) (CleanTids vm) (init clock) as := by
  refine along_congr (fun h _ hs => Valid.step h hs) (fun {r a} h => ?_) (valid_init clock)
  cases a with
  | start a initTime => exact Iff.rfl
  | stop hashCode => exact Iff.rfl
  | loop polled rd => exact imp_congr_right fun _ => exactArrays_iff (h.taking vm polled)

/-- A task with the thread ids 5 and 0. -/
def mixedArgs : StartArgs := ⟨0, 1, 0, 0, some [5, 0], 1000, 1, 1, 1⟩

/-- Tasks of one thread each; the first expires between the scan and the request. -/
def shortArgs : StartArgs := ⟨0, 1, 0, 0, some [5], 10, 1, 1, 1⟩

def longArgs : StartArgs := ⟨0, 1, 0, 0, some [6], 1000, 1, 1, 1⟩

def shortReadings : Readings := ⟨5, fun _ => 5, fun _ => 15, fun _ => 15, fun _ => true⟩

/-- The arrays passed are [5, 0] for the first run, and for the second, in which only the
task of thread 6 is left, [6, 0]. -/
theorem tids_mixed :
    ¬ Along (step exampleMachine) (ExactTids exampleMachine) (init 0)
      [.start mixedArgs 5, .loop 1 (.still 5)] ∧
    ¬ Along (step exampleMachine) (ExactTids exampleMachine) (init 0)
      [.start shortArgs 5, .start longArgs 5, .loop 2 shortReadings] := by
  constructor
  · intro h
    have hexact := @Along.last Thread Action _ _ [.start mixedArgs 5] _ _ _ h rfl
    have hperm := (hexact rfl).requested [5, 0] (by decide +kernel)
    have hzero : (0 : JInt) ∈ [(5 : JInt), 0] := by decide
    exact absurd (pos_of_mem_positiveTids (hperm.mem_iff.mp hzero)) (by decide)
  · intro h
    have hexact := @Along.last Thread Action _ _ [.start shortArgs 5, .start longArgs 5] _ _ _ h rfl
    have hperm := (hexact rfl).requested [6, 0] (by decide +kernel)
    have hzero : (0 : JInt) ∈ [(6 : JInt), 0] := by decide
    exact absurd (pos_of_mem_positiveTids (hperm.mem_iff.mp hzero)) (by decide)

end Hardcoder.HCPerfRunnable
