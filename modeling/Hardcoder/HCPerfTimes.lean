import Hardcoder.HCPerfCalls

/-! When the manager wakes up, and how long its requests last. -/

namespace Hardcoder.HCPerfManager
set_option autoImplicit false

/-- When the task starts or, if it has, when it stops. -/
def PerformanceTask.boundary (task : PerformanceTask) (now : Int) : Int :=
  if now < task.startTime then task.startTime else task.stopTime

/-- The next wake-up comes after 30 s at most, and not behind the boundary of a task. -/
structure Scan.Wakes (clock : Nat → Int) (z : Scan) : Prop where
  positive : 0 < z.nextWakeInterval
  default : z.nextWakeInterval ≤ DEFAULT_WAKE_INTERVAL
  boundary : ∀ t ∈ z.listStartTask, clock t + z.nextWakeInterval ≤ (z.task t).boundary (clock t)

section Wakes
variable {vm : Machine} {clock : Nat → Int} {z : Scan} {t : Nat}

theorem Scan.next_nextWakeInterval {now : Int} : (z.next vm now t).nextWakeInterval =
    if ((z.stopTask vm now t).task t).stopTime ≤ now then z.nextWakeInterval
    else min z.nextWakeInterval (min (((z.stopTask vm now t).task t).stopTime - now)
      (((z.stopTask vm now t).task t).boundary now - now)) := by
  have hstop : (z.stopTask vm now t).nextWakeInterval = z.nextWakeInterval := by
    unfold stopTask
    split
    · rfl
    · rfl
  unfold next PerformanceTask.boundary
  dsimp only
  by_cases hover : ((z.stopTask vm now t).task t).stopTime ≤ now
  · have hleft : ((z.stopTask vm now t).task t).stopTime - now ≤ 0 := by omega
    rw [if_pos hover, if_pos hleft]
    exact hstop
  have hleft : ¬ ((z.stopTask vm now t).task t).stopTime - now ≤ 0 := by omega
  rw [if_neg hover, if_neg hleft]
  by_cases hwaits : now < ((z.stopTask vm now t).task t).startTime
  · have hwait : 0 < ((z.stopTask vm now t).task t).startTime - now := by omega
    rw [if_pos hwaits, if_pos hwait]
    dsimp only
    rw [hstop, min_assoc]
  · have hwait : ¬ 0 < ((z.stopTask vm now t).task t).startTime - now := by omega
    rw [if_neg hwaits, if_neg hwait, min_self]
    exact congrArg (min · _) hstop

theorem Scan.Wakes.next (h : z.Wakes clock) (hnew : t ∉ z.listStartTask) :
    (z.next vm (clock t) t).Wakes clock := by
  have hpositive := h.positive
  have hdefault := h.default
  have htask : (z.next vm (clock t) t).task t = (z.stopTask vm (clock t) t).task t :=
    congrFun next_task t
  have hothers : ∀ u ∈ z.listStartTask, (z.next vm (clock t) t).task u = z.task u := by
    intro u hu
    rw [next_task, stopTask_of_ne]
    rintro rfl
    exact hnew hu
  have hwake := @next_nextWakeInterval vm z t (clock t)
  have hlist := @next_listStartTask vm (clock t) z t
  by_cases hover : ((z.stopTask vm (clock t) t).task t).stopTime ≤ clock t
  · have hlasts : ¬ clock t < ((z.stopTask vm (clock t) t).task t).stopTime := by omega
    rw [if_pos hover] at hwake
    rw [if_neg hlasts] at hlist
    refine ⟨hwake ▸ hpositive, hwake ▸ hdefault, fun u hu => ?_⟩
    rw [hlist] at hu
    rw [hwake, hothers u hu]
    exact h.boundary u hu
  · have hlasts : clock t < ((z.stopTask vm (clock t) t).task t).stopTime := by omega
    rw [if_neg hover] at hwake
    rw [if_pos hlasts] at hlist
    have hself : clock t < ((z.stopTask vm (clock t) t).task t).boundary (clock t) := by
      unfold PerformanceTask.boundary
      split
      · assumption
      · exact hlasts
    refine ⟨by omega, by omega, fun u hu => ?_⟩
    rw [hlist] at hu
    rcases List.mem_append.mp hu with hu | hu
    · have hbefore := h.boundary u hu
      rw [hothers u hu]
      omega
    · obtain rfl := List.mem_singleton.mp hu
      rw [htask]
      omega

theorem Scan.Wakes.foldl {rest : List Nat} (hnodup : rest.Nodup) : ∀ {z : Scan}, z.Wakes clock →
    (∀ t ∈ rest, t ∉ z.listStartTask) →
    (rest.foldl (fun z t => z.next vm (clock t) t) z).Wakes clock := by
  induction rest with
  | nil => exact fun h _ => h
  | cons t rest ih =>
    intro z h hnew
    obtain ⟨hnot, hrest⟩ := List.nodup_cons.mp hnodup
    refine ih hrest (h.next (hnew t List.mem_cons_self)) fun u hu hmem => ?_
    have hbefore := hnew u (List.mem_cons_of_mem _ hu)
    rw [next_listStartTask] at hmem
    split at hmem
    · rcases List.mem_append.mp hmem with hmem | hmem
      · exact hbefore hmem
      · exact hnot (List.mem_singleton.mp hmem ▸ hu)
    · exact hbefore hmem

end Wakes

end Hardcoder.HCPerfManager

namespace Hardcoder.HCPerfRunnable
open HCPerfManager Runs
set_option autoImplicit false

theorem scanned_wakes (vm : Machine) (rd : Readings) {r : Thread}
    (hnodup : r.sys.listStartTask.Nodup) : (r.scanned vm rd).toScan.Wakes rd.scan := by
  have hscan : (r.scanned vm rd).toScan =
      r.sys.listStartTask.foldl (fun z t => z.next vm (rd.scan t) t) r.sys.scan :=
    toScan_loop vm rd
  rw [hscan]
  apply Scan.Wakes.foldl hnodup
  · have hpos : 0 < DEFAULT_WAKE_INTERVAL := by decide
    exact ⟨hpos, Int.le_refl _, fun _ ht => (nomatch ht)⟩
  · exact fun _ _ => List.not_mem_nil

/-- The timeouts passed to `requestUnifyCpuIOThreadCoreGpu`. -/
def timeouts (calls : List NativeCall) : List JInt :=
  calls.filterMap fun
    | .requestUnifyCpuIOThreadCoreGpu _ _ _ _ timeout _ => some timeout
    | _ => none

/-- The best tasks and those that bind threads and have not expired. -/
def Asking (rd : Readings) (z : Scan) : Set Nat :=
  {t | (∃ k, z.max k = some t) ∨ t ∈ z.needBindCore ∧ rd.request t < (z.task t).stopTime}

/-- There is something to ask for, it is not what was asked for last, and the flag is set. -/
structure Required (rd : Readings) (s : Sys) (z : Scan) : Prop where
  some : (∃ k, z.max k ≠ none) ∨ z.needBindCore ≠ []
  changed : HCPerfManager.unchanged s z (s.currBindCore.filter fun t => t ∉ z.needBindCore) = false
  checkEnv : rd.checkEnv .requestUnifyCpuIOThreadCoreGpu = true

/-- The manager wakes up in time, and a request that is required lasts until the first of
its tasks stops. -/
structure WellTimed (rd : Readings) (s : Sys) (z : Scan) (calls : List NativeCall) : Prop where
  wakes : z.Wakes rd.scan
  request : Required rd s z → ∃ timeout ∈ timeouts calls, 0 < timeout.toInt ∧
    IsLeast ((fun t => (z.task t).stopTime) '' Asking rd z) (rd.now + timeout.toInt)

section Times
variable (vm : Machine)

/-- The pass that the action makes is well timed. -/
def Timed (r : Thread) : Action → Prop
  | .loop polled rd =>
    let r := r.taking vm polled
    let z := (r.scanned vm rd).toScan
    r.running = true → WellTimed rd r.sys z (requests vm rd r.sys z).calls
  | _ => True

/-- Of the tasks that the request is about one that stops first has less than
`Integer.MAX_VALUE` left, no other seems to have less as an `int`, and the one added last
has a caller and a scene or an action. -/
structure Thread.Punctual (r : Thread) (rd : Readings) (t : Nat) : Prop where
  mem : t ∈ r.requestTasks vm rd
  first : ∀ u ∈ r.requestTasks vm rd, (r.sys.task t).stopTime ≤ (r.sys.task u).stopTime
  positive : 0 < (r.sys.task t).stopTime - rd.now
  short : (r.sys.task t).stopTime - rd.now < MAX_VALUE.toInt
  least : ∀ u ∈ r.requestTasks vm rd, (r.sys.task t).stopTime - rd.now ≤ leftInterval r.sys.task rd.now u
  last : ∃ u ∈ (r.requestTasks vm rd).getLast?, 0 < (r.sys.task u).callerTid.toInt ∧
    (0 < (r.sys.task u).scene.toInt ∨ 0 < (r.sys.task u).action.toInt)

/-- Some running task asks for a level or for a thread to be bound, other tasks are chosen
than in the last pass, and the flag is set. -/
structure Thread.Due (r : Thread) (rd : Readings) : Prop where
  some : ∃ t ∈ r.runningTasks vm rd,
    (∃ k, 0 < ((r.sys.task t).level k).toInt) ∨ (r.sys.task t).binds = true
  changed : ¬ r.Same vm rd
  checkEnv : rd.checkEnv .requestUnifyCpuIOThreadCoreGpu = true

/-- A request that is due in the pass can be made. -/
def InTime (r : Thread) : Action → Prop
  | .loop polled rd =>
    let r := r.taking vm polled
    r.running = true → r.Due vm rd → ∃ t, r.Punctual vm rd t
  | _ => True

end Times

section Pass
variable {vm : Machine} {rd : Readings} {r : Thread}

theorem leftInterval_of_lt {task : Nat → PerformanceTask} {now : Int} {t : Nat}
    (hpos : 0 < (task t).stopTime - now) (hlt : (task t).stopTime - now < MAX_VALUE.toInt) :
    leftInterval task now t = (task t).stopTime - now := by
  rw [toInt_max_value] at hlt
  rw [leftInterval, BitVec.toInt_ofInt, Int.bmod_eq_of_le] <;> omega

/-- The time stamp is the least time left, as an `int`. -/
theorem timeStamp_least (task : Nat → PerformanceTask) (now : Int) (ts : List Nat) :
    (∀ t ∈ ts, (Request.adds task now ⟨0, 0, 0, MAX_VALUE⟩ ts).timeStamp.toInt ≤
      leftInterval task now t) ∧
    ((Request.adds task now ⟨0, 0, 0, MAX_VALUE⟩ ts).timeStamp.toInt = MAX_VALUE.toInt ∨
      ∃ t ∈ ts, (Request.adds task now ⟨0, 0, 0, MAX_VALUE⟩ ts).timeStamp.toInt =
        leftInterval task now t) := by
  induction ts using List.reverseRecOn with
  | nil => exact ⟨fun _ h => (nomatch h), .inl rfl⟩
  | append_singleton ts t ih =>
    obtain ⟨hle, heq⟩ := ih
    have htime : (Request.adds task now ⟨0, 0, 0, MAX_VALUE⟩ (ts ++ [t])).timeStamp.toInt =
        min (leftInterval task now t) (Request.adds task now ⟨0, 0, 0, MAX_VALUE⟩ ts).timeStamp.toInt := by
      rw [adds_append]
      exact toInt_jmin _ _
    rw [htime]
    constructor
    · intro u hu
      rcases List.mem_append.mp hu with hu | hu
      · exact le_trans (min_le_right _ _) (hle u hu)
      · rw [List.mem_singleton.mp hu]
        exact min_le_left _ _
    · rcases le_total (leftInterval task now t)
        (Request.adds task now ⟨0, 0, 0, MAX_VALUE⟩ ts).timeStamp.toInt with hmin | hmin
      · exact .inr ⟨t, List.mem_append_right _ (List.mem_singleton_self _), min_eq_left hmin⟩
      · rw [min_eq_right hmin]
        exact heq.imp_right fun ⟨u, hu, heq⟩ => ⟨u, List.mem_append_left _ hu, heq⟩

theorem best_ne_none_iff {task : Nat → PerformanceTask} {k : Resource} {tasks : List Nat} :
    best task k tasks ≠ none ↔ ∃ t ∈ tasks, 0 < ((task t).level k).toInt := by
  have hwins := @wins_best task k tasks
  cases hbest : best task k tasks with
  | none =>
    rw [hbest] at hwins
    exact iff_of_false (fun hne => hne rfl) fun ⟨t, ht, hpos⟩ => hwins t ht hpos
  | some m => exact iff_of_true (Option.some_ne_none m) ⟨m, best_mem hbest⟩

theorem required_iff (h : Valid r) :
    Required rd r.sys (r.scanned vm rd).toScan ↔ r.Due vm rd := by
  have hscan := @scanned_spec vm r rd h.list_nodup
  have hchanged : HCPerfManager.unchanged r.sys (r.scanned vm rd).toScan
      (r.sys.currBindCore.filter fun t => t ∉ (r.scanned vm rd).needBindCore) = false ↔
      ¬ r.Same vm rd := by
    rw [← unchanged_iff h, Bool.not_eq_true]
  have hsome : ((∃ k, (r.scanned vm rd).max k ≠ none) ∨ (r.scanned vm rd).needBindCore ≠ []) ↔
      ∃ t ∈ r.runningTasks vm rd,
        (∃ k, 0 < ((r.sys.task t).level k).toInt) ∨ (r.sys.task t).binds = true := by
    rw [hscan.bind, Ne, List.filter_eq_nil_iff]
    constructor
    · rintro (⟨k, hk⟩ | hbind)
      · rw [hscan.max] at hk
        obtain ⟨t, ht, hpos⟩ := best_ne_none_iff.mp hk
        exact ⟨t, ht, .inl ⟨k, hpos⟩⟩
      · push Not at hbind
        obtain ⟨t, ht, hbinds⟩ := hbind
        exact ⟨t, ht, .inr hbinds⟩
    · rintro ⟨t, ht, ⟨k, hpos⟩ | hbinds⟩
      · refine .inl ⟨k, ?_⟩
        rw [hscan.max]
        exact best_ne_none_iff.mpr ⟨t, ht, hpos⟩
      · exact .inr fun hnone => hnone t ht hbinds
  constructor
  · exact fun hr => ⟨hsome.mp hr.some, hchanged.mp hr.changed, hr.checkEnv⟩
  · exact fun hd => ⟨hsome.mpr hd.some, hchanged.mpr hd.changed, hd.checkEnv⟩

theorem timeouts_requests (h : Valid r) (hdue : r.Due vm rd) {timeout : JInt} :
    timeout ∈ timeouts (requests vm rd r.sys (r.scanned vm rd).toScan).calls ↔
      r.Requests vm rd ∧ timeout = (r.request vm rd).timeStamp := by
  rw [timeouts, filterMap_requests h (fun _ => rfl) fun _ _ => rfl, and_iff_right hdue.changed]
  refine and_congr_right fun _ => ?_
  rw [and_iff_right hdue.checkEnv]
  exact Option.some_inj.trans eq_comm

theorem mem_requestTasks (h : Valid r) {t : Nat} :
    t ∈ r.requestTasks vm rd ↔ t ∈ Asking rd (r.scanned vm rd).toScan := by
  have hscan := @scanned_spec vm r rd h.list_nodup
  have hbind : (r.scanned vm rd).needBindCore = r.bindTasks vm rd := hscan.bind
  have hlevels : (t ∈ ([.io, .gpu, .cpu] : List Resource).flatMap fun k =>
      (best r.sys.task k (r.runningTasks vm rd)).toList) ↔ ∃ k, (r.scanned vm rd).max k = some t := by
    rw [List.mem_flatMap]
    constructor
    · rintro ⟨k, -, hk⟩
      exact ⟨k, (hscan.max k).trans (Option.mem_toList.mp hk)⟩
    · rintro ⟨k, hk⟩
      refine ⟨k, ?_, Option.mem_toList.mpr ((hscan.max k).symm.trans hk)⟩
      cases k <;> decide
  have hlasting : (t ∈ (vm.iterator (r.bindTasks vm rd)).filter
      fun t => rd.request t < (r.sys.task t).stopTime) ↔
      t ∈ (r.scanned vm rd).needBindCore ∧ rd.request t < ((r.scanned vm rd).task t).stopTime := by
    rw [List.mem_filter, (vm.iterator_perm _).mem_iff, hbind, decide_eq_true_eq]
    exact and_congr_right fun ht => by rw [(scanned_bindTasks h ht).1]
  rw [Thread.requestTasks, List.mem_append, hlevels, hlasting, or_comm]
  rfl

theorem stopTimes_asking (h : Valid r) :
    (fun t => ((r.scanned vm rd).task t).stopTime) '' Asking rd (r.scanned vm rd).toScan =
      (fun t => (r.sys.task t).stopTime) '' {t | t ∈ r.requestTasks vm rd} := by
  have hset : Asking rd (r.scanned vm rd).toScan = {t | t ∈ r.requestTasks vm rd} :=
    Set.ext fun t => (mem_requestTasks h).symm
  rw [hset]
  apply Set.image_congr
  intro t ht
  rw [(scanned_spec h.list_nodup).task,
    stopAt_of_notMem (notMem_hits_of_running (running_of_requestTasks ht))]

theorem Thread.Punctual.requests {t : Nat} (ht : r.Punctual vm rd t) : r.Requests vm rd := by
  have hleft := leftInterval_of_lt ht.positive ht.short
  refine ⟨fun hall => ?_, .inr ⟨fun u hu => ?_, ht.last⟩⟩
  · have hmax := hall t ht.mem
    have hshort := ht.short
    omega
  · have hpositive := ht.positive
    have hleast := ht.least u hu
    omega

theorem Thread.Punctual.timeStamp {t : Nat} (ht : r.Punctual vm rd t) :
    (r.request vm rd).timeStamp.toInt = (r.sys.task t).stopTime - rd.now := by
  have hleft := leftInterval_of_lt ht.positive ht.short
  have hshort := ht.short
  obtain ⟨hle, hmax | ⟨u, hu, heq⟩⟩ :=
    timeStamp_least r.sys.task rd.now (r.requestTasks vm rd)
  · have hself := hle t ht.mem
    omega
  · have hself := hle t ht.mem
    have hleast := ht.least u hu
    rw [Thread.request]
    omega

theorem wellTimed_iff (h : Valid r) :
    WellTimed rd r.sys (r.scanned vm rd).toScan (requests vm rd r.sys (r.scanned vm rd).toScan).calls ↔
      (r.Due vm rd → ∃ t, r.Punctual vm rd t) := by
  constructor
  · intro hw hdue
    obtain ⟨timeout, hmem, hpos, hleast⟩ := hw.request ((required_iff h).mpr hdue)
    obtain ⟨⟨hsome, hrequestable⟩, rfl⟩ := (timeouts_requests h hdue).mp hmem
    rw [stopTimes_asking h] at hleast
    obtain ⟨⟨t, ht, hstop⟩, hlower⟩ := hleast
    have hlt : (r.request vm rd).timeStamp.toInt < MAX_VALUE.toInt := timeStamp_adds.2.mpr hsome
    have hleft : (r.sys.task t).stopTime - rd.now = (r.request vm rd).timeStamp.toInt := by
      dsimp only at hstop
      omega
    refine ⟨t, ht, fun u hu => ?_, by omega, by omega, fun u hu => ?_, ?_⟩
    · rw [show (r.sys.task t).stopTime = rd.now + (r.request vm rd).timeStamp.toInt from hstop]
      exact hlower ⟨u, hu, rfl⟩
    · rw [hleft]
      exact (timeStamp_least r.sys.task rd.now (r.requestTasks vm rd)).1 u hu
    · exact (hrequestable.resolve_left hsome).2
  · intro hpunctual
    refine ⟨scanned_wakes vm rd h.list_nodup, fun hrequired => ?_⟩
    have hdue := (required_iff h).mp hrequired
    obtain ⟨t, ht⟩ := hpunctual hdue
    have htime := ht.timeStamp
    refine ⟨_, (timeouts_requests h hdue).mpr ⟨ht.requests, rfl⟩, ?_, ?_⟩
    · rw [htime]
      exact ht.positive
    · have hsum : rd.now + (r.request vm rd).timeStamp.toInt = (r.sys.task t).stopTime := by omega
      rw [stopTimes_asking h, hsum]
      refine ⟨⟨t, ht.mem, rfl⟩, ?_⟩
      rintro _ ⟨u, hu, rfl⟩
      exact ht.first u hu

end Pass

/-- In a run every pass is well timed if and only if each request that is due can be made:
the wake-up is always in time. -/
theorem timed_iff_inTime (vm : Machine) (clock : Int) (as : List Action) :
    Along (step vm) (Timed vm) (init clock) as ↔ Along (step vm) (InTime vm) (init clock) as := by
  refine along_congr (fun h _ hs => Valid.step h hs) (fun {r a} h => ?_) (valid_init clock)
  cases a with
  | start a initTime => exact Iff.rfl
  | stop hashCode => exact Iff.rfl
  | loop polled rd => exact imp_congr_right fun _ => wellTimed_iff (h.taking vm polled)

/-- A task that starts at once and has the longest timeout. -/
def endlessArgs : StartArgs := ⟨0, 1, 0, 0, some [], MAX_VALUE, 1, 1, 1⟩

/-- The task runs, and nothing is requested for it. -/
theorem timeouts_endless :
    ¬ Along (step exampleMachine) (Timed exampleMachine) (init 0)
      [.start endlessArgs 5, .loop 1 (.still 5)] := by
  intro h
  have htimed := @Along.last Thread Action _ _ [.start endlessArgs 5] _ _ _ h rfl
  obtain ⟨timeout, hmem, -⟩ := (htimed rfl).request ⟨.inl ⟨.cpu, by decide⟩, by decide, rfl⟩
  cases hmem

end Hardcoder.HCPerfRunnable
