import Hardcoder.HCPerfArbitration
import Hardcoder.HCPerfVisit

/-! The assertions of `HCPerfRunnable.run`. Those about the threads of a task hold; those
before the request depend on the tasks that it is about. -/

namespace Hardcoder.HCPerfRunnable
open HCPerfManager Runs
set_option autoImplicit false

section Survival
variable (vm : Machine)

/-- `(int) (task.stopTime - now)` -/
def leftInterval (task : Nat → PerformanceTask) (now : Int) (t : Nat) : Int :=
  (BitVec.ofInt 32 ((task t).stopTime - now)).toInt

/-- The request can be made: none of its tasks has its time left overflow or at an end, and
the last of them has a caller and a scene or an action. When none of them has less than
`Integer.MAX_VALUE` left there is no request. -/
def Requestable (task : Nat → PerformanceTask) (now : Int) (tasks : List Nat) : Prop :=
  (∀ t ∈ tasks, leftInterval task now t = MAX_VALUE.toInt) ∨
    ((∀ t ∈ tasks, 0 < leftInterval task now t) ∧
      ∃ t ∈ tasks.getLast?, 0 < (task t).callerTid.toInt ∧
        (0 < (task t).scene.toInt ∨ 0 < (task t).action.toInt))

namespace Thread
variable (r : Thread) (rd : Readings)

/-- The running tasks that bind threads. -/
def bindTasks : List Nat := (r.runningTasks vm rd).filter fun t => (r.sys.task t).binds

/-- The tasks that a request is about, in the order in which they are added to it. -/
def requestTasks : List Nat :=
  (vm.iterator (r.bindTasks vm rd)).filter (fun t => rd.request t < (r.sys.task t).stopTime) ++
    ([.io, .gpu, .cpu] : List Resource).flatMap fun k =>
      (best r.sys.task k (r.runningTasks vm rd)).toList

/-- The same tasks are chosen as in the last pass. -/
def Same : Prop :=
  (∀ k, best r.sys.task k (r.runningTasks vm rd) = r.sys.curr k) ∧
    r.sys.currBindCore.length = (r.bindTasks vm rd).length ∧
    ∀ t ∈ r.sys.currBindCore, t ∈ r.bindTasks vm rd

end Thread

/-- The pass that the action makes has nothing to request, or can request it. -/
def Safe (r : Thread) : Action → Prop
  | .loop polled rd =>
    let r := r.taking vm polled
    r.Same vm rd ∨ Requestable r.sys.task rd.now (r.requestTasks vm rd)
  | _ => True

/-- The thread is running after the step. -/
def Survives (r : Thread) (a : Action) : Prop := ∀ r', step vm r a = some r' → r'.running = true

/-- What holds whatever is asked of the manager. -/
structure Valid (r : Thread) : Prop where
  nodup : r.sys.pending.Nodup
  made : ∀ t ∈ r.sys.pending, t < r.sys.made
  bind : ∀ t ∈ r.sys.currBindCore, t < r.sys.made ∧ (r.sys.task t).binds = true

end Survival

theorem valid_init (clock : Int) : Valid (init clock) :=
  ⟨List.nodup_nil, fun _ h => (nomatch h), fun _ h => (nomatch h)⟩

namespace Valid
variable {vm : Machine} {r : Thread}

theorem start (h : Valid r) (a : StartArgs) (initTime : Int) :
    Valid { r with sys := r.sys.startArgs a initTime } := by
  unfold Sys.startArgs
  split
  · have hperm := pending_start r.sys
    refine ⟨hperm.nodup_iff.mpr (List.nodup_cons.mpr ⟨fun hmem => ?_, h.nodup⟩), fun t ht => ?_,
      fun t ht => ?_⟩
    · exact Nat.lt_irrefl _ (h.made _ hmem)
    · rcases List.mem_cons.mp (hperm.mem_iff.mp ht) with rfl | ht
      · exact Nat.lt_succ_self _
      · exact Nat.lt_succ_of_lt (h.made t ht)
    · obtain ⟨hlt, hbinds⟩ := h.bind t ht
      refine ⟨Nat.lt_succ_of_lt hlt, ?_⟩
      dsimp only
      rwa [Function.update_of_ne (Nat.ne_of_lt hlt)]
  · exact ⟨h.nodup, h.made, h.bind⟩

theorem stop (h : Valid r) (hashCode : JInt) :
    Valid { r with sys := r.sys.stop hashCode } := by
  unfold Sys.stop
  split
  · have hpending := pending_stop r.sys hashCode
    exact ⟨hpending ▸ h.nodup, hpending ▸ h.made, h.bind⟩
  · exact h

theorem poll (h : Valid r) {q : Queued} {taskQueue : List Queued}
    (hq : r.sys.taskQueue = q :: taskQueue) :
    Valid ({ r with sys := { r.sys with taskQueue := taskQueue } }.poll vm q) := by
  cases q with
  | start t =>
    have hperm := pending_poll_start hq
    exact ⟨hperm.nodup_iff.mpr h.nodup, fun u hu => h.made u (hperm.mem_iff.mp hu), h.bind⟩
  | stop hashCode =>
    have hpending := pending_poll_stop hq
    unfold Thread.poll
    simp only [Sys.poll]
    split
    · exact ⟨hpending ▸ h.nodup, hpending ▸ h.made, h.bind⟩
    · exact ⟨hpending ▸ h.nodup, hpending ▸ h.made, h.bind⟩

theorem list_nodup (h : Valid r) : r.sys.listStartTask.Nodup := (List.nodup_append.mp h.nodup).2.1

end Valid

/-- What every poll keeps, the loop keeps that takes elements from the queue. -/
theorem taking_invariant {vm : Machine} {P : Thread → Prop}
    (hpoll : ∀ {r : Thread} {q : Queued} {taskQueue : List Queued}, r.sys.taskQueue = q :: taskQueue →
      P r → P ({ r with sys := { r.sys with taskQueue := taskQueue } }.poll vm q))
    {r : Thread} (h : P r) (polled : Nat) : P (r.taking vm polled) := by
  induction polled generalizing r with
  | zero => exact h
  | succ polled ih =>
    unfold Thread.taking
    split
    · exact h
    · rename_i q taskQueue hq
      exact ih (hpoll hq h)

section Pass
variable {vm : Machine} {r : Thread} {rd : Readings}

theorem binds_stopAt (t : Nat) : (r.stopAt vm rd t).binds = (r.sys.task t).binds := by
  unfold Thread.stopAt
  split
  · rfl
  · rfl

theorem list_of_running {t : Nat} (h : t ∈ r.runningTasks vm rd) : t ∈ r.sys.listStartTask :=
  List.mem_of_mem_filter h

theorem Valid.pass (h : Valid r) (rd : Readings) : Valid (r.pass vm rd) := by
  have hscan := @scanned_spec vm r rd h.list_nodup
  have hlist : ((r.scanned vm rd).listStartTask).Sublist r.sys.listStartTask := by
    rw [hscan.list]
    exact List.filter_sublist
  have hpending : ((r.pass vm rd).sys.pending).Sublist r.sys.pending := hlist.append_left _
  refine ⟨hpending.nodup h.nodup, fun t ht => h.made t (hpending.subset ht), fun t ht => ?_⟩
  have hbind : t ∈ (r.scanned vm rd).needBindCore := ht
  rw [hscan.bind] at hbind
  obtain ⟨hruns, hbinds⟩ := List.mem_filter.mp hbind
  refine ⟨h.made t (List.mem_append_right _ (list_of_running hruns)), ?_⟩
  calc ((r.scanned vm rd).task t).binds = (r.stopAt vm rd t).binds := by rw [hscan.task]
    _ = true := by rw [binds_stopAt, hbinds]

theorem Valid.taking (h : Valid r) (vm : Machine) (polled : Nat) : Valid (r.taking vm polled) :=
  taking_invariant (fun hq h => h.poll hq) h polled

theorem Valid.step {r' : Thread} {a : Action} (h : Valid r) (hstep : step vm r a = some r') :
    Valid r' := by
  cases a with
  | start a initTime => exact Option.some.inj hstep ▸ h.start a initTime
  | stop hashCode => exact Option.some.inj hstep ▸ h.stop hashCode
  | loop polled rd =>
    rw [HCPerfRunnable.step] at hstep
    split at hstep
    · exact Option.some.inj hstep ▸ (h.taking vm polled).pass rd
    · cases hstep

/-! ### What the request is about -/

section Adds
variable {task : Nat → PerformanceTask} {now : Int}

theorem toInt_jmin (a b : JInt) : (jmin a b).toInt = min a.toInt b.toInt := by
  unfold jmin
  split
  · omega
  · omega

/-- The tasks are added to the request one after the other. -/
def Request.adds (task : Nat → PerformanceTask) (now : Int) (q : Request) (tasks : List Nat) : Request :=
  tasks.foldl (fun q t => q.add task now t) q

theorem adds_append (q : Request) (ts us : List Nat) :
    Request.adds task now q (ts ++ us) = Request.adds task now (Request.adds task now q ts) us :=
  List.foldl_append

theorem adds_toList (q : Request) (max : Option Nat) :
    Request.adds task now q max.toList = q.addLevel task now max := by
  cases max with
  | none => rfl
  | some m => rfl

theorem adds_congr {task' : Nat → PerformanceTask} {q : Request} {ts : List Nat}
    (h : ∀ t ∈ ts, task' t = task t) : Request.adds task' now q ts = Request.adds task now q ts := by
  apply List.foldl_ext
  intro q t ht
  rw [Request.add, Request.add, h t ht]

theorem timeStamp_adds {ts : List Nat} :
    (0 < (Request.adds task now ⟨0, 0, 0, MAX_VALUE⟩ ts).timeStamp.toInt ↔
      ∀ t ∈ ts, 0 < leftInterval task now t) ∧
    ((Request.adds task now ⟨0, 0, 0, MAX_VALUE⟩ ts).timeStamp.toInt < MAX_VALUE.toInt ↔
      ¬ ∀ t ∈ ts, leftInterval task now t = MAX_VALUE.toInt) := by
  induction ts using List.reverseRecOn with
  | nil =>
    have hpos : 0 < MAX_VALUE.toInt := by decide
    exact ⟨iff_of_true hpos fun _ h => (nomatch h), iff_of_false (Int.lt_irrefl _)
      fun h => h fun _ h => (nomatch h)⟩
  | append_singleton ts t ih =>
    have htime : (Request.adds task now ⟨0, 0, 0, MAX_VALUE⟩ (ts ++ [t])).timeStamp.toInt =
        min (leftInterval task now t) (Request.adds task now ⟨0, 0, 0, MAX_VALUE⟩ ts).timeStamp.toInt := by
      rw [adds_append]
      exact toInt_jmin _ _
    have hle : leftInterval task now t ≤ MAX_VALUE.toInt := by
      have hlt := BitVec.toInt_lt (x := BitVec.ofInt 32 ((task t).stopTime - now))
      rw [toInt_max_value, leftInterval]
      omega
    rw [htime, List.forall_mem_append, List.forall_mem_append, List.forall_mem_singleton,
      List.forall_mem_singleton, not_and_or, ← ih.1, ← ih.2]
    constructor
    · omega
    · omega

theorem adds_getLast {q : Request} {ts : List Nat} {t : Nat} (h : t ∈ ts.getLast?) :
    (Request.adds task now q ts).scene = (task t).scene ∧
      (Request.adds task now q ts).action = (task t).action ∧
      (Request.adds task now q ts).callerTid = (task t).callerTid := by
  obtain ⟨us, rfl⟩ := List.getLast?_eq_some_iff.mp h
  rw [adds_append]
  exact ⟨rfl, rfl, rfl⟩

theorem requestTids_spec {ts : List Nat} (hneed : ∀ t ∈ ts, (task t).isNeedBindTids = true) :
    ∀ q : Request, (requestTids rd task q ts).1 =
        Request.adds task rd.now q (ts.filter fun t => rd.request t < (task t).stopTime) ∧
      (requestTids rd task q ts).2.2 = true := by
  induction ts with
  | nil => exact fun _ => ⟨rfl, rfl⟩
  | cons t ts ih =>
    intro q
    obtain ⟨hself, hrest⟩ := List.forall_mem_cons.mp hneed
    rw [requestTids, List.filter_cons]
    by_cases hover : (task t).stopTime ≤ rd.request t
    · have hnot : ¬ rd.request t < (task t).stopTime := by omega
      rw [if_pos hover, if_neg (by simpa using hover)]
      exact ih hrest q
    · have hlasts : rd.request t < (task t).stopTime := by omega
      rw [if_neg hover, if_neg (ne_of_eq_of_ne hself Bool.false_ne_true.symm), if_pos (decide_eq_true hlasts)]
      exact ih hrest _

theorem cancelTids_spec {ts : List Nat} (hneed : ∀ t ∈ ts, (task t).isNeedBindTids = true) :
    (cancelTids rd task ts).2 = true := by
  induction ts with
  | nil => rfl
  | cons t ts ih =>
    obtain ⟨hself, hrest⟩ := List.forall_mem_cons.mp hneed
    rw [cancelTids]
    split
    · exact ih hrest
    · rw [if_neg (ne_of_eq_of_ne hself Bool.false_ne_true.symm)]
      exact ih hrest

end Adds

/-- No assertion has failed, and the thread goes on. -/
def Done.alive (d : Done) : Bool := d.running && !d.thrown

theorem alive_andThen (d e : Done) : (d.andThen e).alive = (d.alive && e.alive) := by
  rcases d with ⟨calls, objects, running, thrown⟩
  cases thrown with
  | true => cases running with
    | true => rfl
    | false => rfl
  | false =>
    cases running with
    | true => rfl
    | false => rfl

section Alive
variable {s : Sys} {z : Scan}

theorem alive_cancelLevel (k : Resource) : (cancelLevel rd s z k).alive = true := by
  unfold cancelLevel
  split
  · rfl
  · rfl

theorem alive_cancelBindCore {stopSet : List Nat}
    (hneed : ∀ t ∈ stopSet, (z.task t).isNeedBindTids = true) :
    (cancelBindCore vm rd z stopSet).alive = true := by
  have hok := @cancelTids_spec rd z.task (vm.iterator stopSet) fun t ht =>
    hneed t ((vm.iterator_perm stopSet).mem_iff.mp ht)
  unfold cancelBindCore
  dsimp only
  split
  · rw [hok]
    rfl
  · rfl

theorem alive_unifyRequest {q : Request} {tidList : List JInt} :
    (unifyRequest rd z q tidList).alive = true ↔ (q.timeStamp.toInt < MAX_VALUE.toInt →
      asserted q (fun k => reqLevel z.task (z.max k) k) tidList = true) := by
  unfold unifyRequest
  dsimp only
  split
  · rename_i hlt
    split
    · rename_i hasserted
      exact iff_of_true rfl fun _ => hasserted
    · rename_i hasserted
      exact iff_of_false Bool.false_ne_true fun h => hasserted (h hlt)
  · rename_i hlt
    exact iff_of_true rfl fun h => absurd h hlt

end Alive

theorem Valid.isNeedBindTids (h : Valid r) (rd : Readings) {t : Nat} (ht : t ∈ r.sys.currBindCore) :
    ((r.scanned vm rd).task t).isNeedBindTids = true := by
  apply PerformanceTask.isNeedBindTids_of_binds
  rw [(scanned_spec h.list_nodup).task, binds_stopAt]
  exact (h.bind t ht).2

/-- No task of the request's loop fails its assertion. -/
theorem Valid.isNeedBindTids_needBindCore (h : Valid r) (rd : Readings) {t : Nat}
    (ht : t ∈ vm.iterator (r.scanned vm rd).needBindCore) :
    ((r.scanned vm rd).task t).isNeedBindTids = true := by
  have hscan := @scanned_spec vm r rd h.list_nodup
  rw [(vm.iterator_perm _).mem_iff, hscan.bind] at ht
  apply PerformanceTask.isNeedBindTids_of_binds
  rw [hscan.task, binds_stopAt]
  exact (List.mem_filter.mp ht).2

theorem unchanged_iff (h : Valid r) : HCPerfManager.unchanged r.sys (r.scanned vm rd).toScan
    (r.sys.currBindCore.filter fun t => t ∉ (r.scanned vm rd).needBindCore) = true ↔ r.Same vm rd := by
  have hscan := @scanned_spec vm r rd h.list_nodup
  have hstop : (r.sys.currBindCore.filter fun t => t ∉ (r.scanned vm rd).needBindCore) = [] ↔
      ∀ t ∈ r.sys.currBindCore, t ∈ r.bindTasks vm rd := by
    rw [List.filter_eq_nil_iff, hscan.bind]
    exact forall₂_congr fun t _ => by rw [decide_eq_true_eq, not_not]; rfl
  rw [HCPerfManager.unchanged, decide_eq_true_eq, hstop, hscan.max, hscan.max, hscan.max, hscan.bind]
  constructor
  · rintro ⟨hcpu, hgpu, hio, hbind⟩
    refine ⟨fun k => ?_, hbind⟩
    cases k with
    | cpu => exact hcpu
    | gpu => exact hgpu
    | io => exact hio
  · exact fun h => ⟨h.1 .cpu, h.1 .gpu, h.1 .io, h.2⟩

theorem running_of_requestTasks {t : Nat} (h : t ∈ r.requestTasks vm rd) :
    t ∈ r.runningTasks vm rd := by
  rcases List.mem_append.mp h with h | h
  · have hbind := (vm.iterator_perm _).mem_iff.mp (List.mem_of_mem_filter h)
    exact List.mem_of_mem_filter hbind
  · obtain ⟨k, -, hk⟩ := List.mem_flatMap.mp h
    exact (best_mem (Option.mem_toList.mp hk)).1

/-- The request after the loops and the levels. -/
theorem levelRequest_eq (h : Valid r) :
    levelRequest rd (r.scanned vm rd).toScan (requestTids rd (r.scanned vm rd).task
      ⟨0, 0, 0, MAX_VALUE⟩ (vm.iterator (r.scanned vm rd).needBindCore)).1 =
      Request.adds r.sys.task rd.now ⟨0, 0, 0, MAX_VALUE⟩ (r.requestTasks vm rd) := by
  have hscan := @scanned_spec vm r rd h.list_nodup
  have htask : ∀ t ∈ r.runningTasks vm rd, (r.scanned vm rd).task t = r.sys.task t := fun t ht => by
    rw [hscan.task, stopAt_of_notMem (notMem_hits_of_running ht)]
  have hruns : ∀ t ∈ vm.iterator (r.scanned vm rd).needBindCore, t ∈ r.runningTasks vm rd := by
    intro t ht
    rw [(vm.iterator_perm _).mem_iff, hscan.bind] at ht
    exact List.mem_of_mem_filter ht
  have hfilter : ((vm.iterator (r.scanned vm rd).needBindCore).filter fun t =>
      rd.request t < ((r.scanned vm rd).task t).stopTime) =
      (vm.iterator (r.bindTasks vm rd)).filter fun t => rd.request t < (r.sys.task t).stopTime := by
    have hbindTasks : r.bindTasks vm rd = (r.scanned vm rd).needBindCore := hscan.bind.symm
    rw [hbindTasks]
    apply List.filter_congr
    intro t ht
    rw [htask t (hruns t ht)]
  rw [← adds_congr fun t ht => htask t (running_of_requestTasks ht), Thread.requestTasks,
    adds_append, levelRequest, (requestTids_spec (fun t ht => h.isNeedBindTids_needBindCore rd ht) _).1,
    hfilter, hscan.max, hscan.max, hscan.max]
  simp only [List.flatMap_cons, List.flatMap_nil, List.append_nil, adds_append, adds_toList]

theorem le_length_filled (length : Nat) (tids : List JInt) : length ≤ (filled length tids).length := by
  rw [filled, List.length_append, List.length_replicate]
  omega

/-- A request that is about some task asks for something. -/
theorem asks_of_requestTasks (h : Valid r) {t : Nat} (ht : t ∈ r.requestTasks vm rd)
    (tids : List JInt) :
    0 < (reqLevel (r.scanned vm rd).task ((r.scanned vm rd).max .cpu) .cpu).toInt ∨
      0 < (reqLevel (r.scanned vm rd).task ((r.scanned vm rd).max .gpu) .gpu).toInt ∨
      0 < (reqLevel (r.scanned vm rd).task ((r.scanned vm rd).max .io) .io).toInt ∨
      0 < (filled (tidCount (r.scanned vm rd).task (r.scanned vm rd).needBindCore) tids).length := by
  have hscan := @scanned_spec vm r rd h.list_nodup
  have htask : (r.scanned vm rd).task t = r.sys.task t := by
    rw [hscan.task, stopAt_of_notMem (notMem_hits_of_running (running_of_requestTasks ht))]
  rcases List.mem_append.mp ht with ht | ht
  · have hbind := (vm.iterator_perm _).mem_iff.mp (List.mem_of_mem_filter ht)
    have hmem : t ∈ (r.scanned vm rd).needBindCore := by
      rw [hscan.bind]
      exact hbind
    obtain ⟨tid, htid, -⟩ := List.any_eq_true.mp (List.mem_filter.mp hbind).2
    rw [← htask] at htid
    have hpos : 0 < tidCount (r.scanned vm rd).task (r.scanned vm rd).needBindCore := by
      rw [← length_flatMap_bindTids]
      exact List.length_pos_of_mem (List.mem_flatMap.mpr ⟨t, hmem, htid⟩)
    exact .inr (.inr (.inr (Nat.lt_of_lt_of_le hpos (le_length_filled _ _))))
  · obtain ⟨k, -, hk⟩ := List.mem_flatMap.mp ht
    have hbest := Option.mem_toList.mp hk
    have hlevel : 0 < (reqLevel (r.scanned vm rd).task ((r.scanned vm rd).max k) k).toInt := by
      rw [hscan.max, Option.mem_def.mp hbest, reqLevel, htask]
      exact (best_mem hbest).2
    cases k with
    | cpu => exact .inl hlevel
    | gpu => exact .inr (.inl hlevel)
    | io => exact .inr (.inr (.inl hlevel))

/-- The assertions before the request, in terms of the tasks it is about. -/
theorem asserted_iff (h : Valid r)
    (hsome : ¬ ∀ t ∈ r.requestTasks vm rd, leftInterval r.sys.task rd.now t = MAX_VALUE.toInt)
    (tids : List JInt) :
    asserted (Request.adds r.sys.task rd.now ⟨0, 0, 0, MAX_VALUE⟩ (r.requestTasks vm rd))
        (fun k => reqLevel (r.scanned vm rd).task ((r.scanned vm rd).max k) k)
        (filled (tidCount (r.scanned vm rd).task (r.scanned vm rd).needBindCore) tids) = true ↔
      (∀ t ∈ r.requestTasks vm rd, 0 < leftInterval r.sys.task rd.now t) ∧
        ∃ t ∈ (r.requestTasks vm rd).getLast?, 0 < (r.sys.task t).callerTid.toInt ∧
          (0 < (r.sys.task t).scene.toInt ∨ 0 < (r.sys.task t).action.toInt) := by
  obtain ⟨hpos, -⟩ := @timeStamp_adds r.sys.task rd.now (r.requestTasks vm rd)
  have hne : r.requestTasks vm rd ≠ [] := fun hnil => hsome fun t ht => by
    rw [hnil] at ht
    cases ht
  have hlast := List.getLast?_eq_some_getLast hne
  obtain ⟨hscene, haction, hcaller⟩ := @adds_getLast r.sys.task rd.now ⟨0, 0, 0, MAX_VALUE⟩ _ _ hlast
  have hasks := asks_of_requestTasks h (List.getLast_mem hne)
  rw [asserted, decide_eq_true_eq, hpos, hscene, haction, hcaller, hlast]
  constructor
  · exact fun hall => ⟨hall.1, _, rfl, hall.2.2.1, hall.2.1⟩
  · rintro ⟨hleft, t, ht, hcallerTid, hscene_or_action⟩
    obtain rfl := Option.some.inj ht
    exact ⟨hleft, hscene_or_action, hcallerTid, hasks _⟩

theorem alive_requests (h : Valid r) : (requests vm rd r.sys (r.scanned vm rd).toScan).alive = true ↔
    r.Same vm rd ∨ Requestable r.sys.task rd.now (r.requestTasks vm rd) := by
  by_cases hsame : r.Same vm rd
  · refine iff_of_true ?_ (.inl hsame)
    unfold requests
    dsimp only
    rw [(unchanged_iff h).mpr hsame]
    rfl
  rw [or_iff_right hsame]
  unfold requests
  dsimp only
  rw [if_neg fun hnot => hsame ((unchanged_iff h).mp hnot), alive_andThen, alive_andThen,
    alive_andThen, alive_andThen, alive_andThen, alive_cancelLevel, alive_cancelLevel,
    alive_cancelLevel, (requestTids_spec (fun t ht => h.isNeedBindTids_needBindCore rd ht) _).2,
    alive_cancelBindCore fun t ht => h.isNeedBindTids rd (List.mem_of_mem_filter ht)]
  have hchecked : (checked rd .requestTids true .nothing).alive = true := rfl
  rw [hchecked, Bool.true_and, Bool.true_and, Bool.true_and, Bool.true_and, Bool.true_and,
    alive_unifyRequest, levelRequest_eq h]
  obtain ⟨-, hlt⟩ := @timeStamp_adds r.sys.task rd.now (r.requestTasks vm rd)
  rw [hlt, Requestable, or_iff_not_imp_left]
  exact imp_congr_right fun hsome => asserted_iff h hsome _

end Pass

/-- No assertion fails in a run if and only if each of its passes is safe. -/
theorem survives_iff_safe (vm : Machine) (clock : Int) (as : List Action) :
    Along (step vm) (Survives vm) (init clock) as ↔ Along (step vm) (Safe vm) (init clock) as := by
  have hstep {r r' : Thread} {a : Action} (h : Valid r ∧ r.running = true) (hsurvives : Survives vm r a)
      (hstep : step vm r a = some r') : Valid r' ∧ r'.running = true :=
    ⟨h.1.step hstep, hsurvives r' hstep⟩
  refine along_congr hstep (fun {r a} h => ?_) ⟨valid_init clock, rfl⟩
  cases a with
  | start a initTime =>
    refine iff_of_true (fun r' hr' => ?_) trivial
    rw [← Option.some.inj hr']
    exact h.2
  | stop hashCode =>
    refine iff_of_true (fun r' hr' => ?_) trivial
    rw [← Option.some.inj hr']
    exact h.2
  | loop polled rd =>
    have htaking := h.1.taking vm polled
    have hpass : step vm r (.loop polled rd) = some ((r.taking vm polled).pass vm rd) := if_pos h.2
    rw [Survives, hpass]
    constructor
    · exact fun hsurvives => (alive_requests htaking).mp (hsurvives _ rfl)
    · intro hsafe r' hr'
      rw [← Option.some.inj hr']
      exact (alive_requests htaking).mpr hsafe

/-- A task of one level with neither scene nor action. -/
def scenelessArgs : StartArgs := ⟨0, 1, 0, 0, some [], 1000, 0, 0, 1⟩

/-- A task with the longest timeout, which begins between two readings of the clock. -/
def longestArgs : StartArgs := ⟨1, 1, 0, 0, some [], MAX_VALUE, 1, 1, 1⟩

theorem assertions_fail :
    (run (step exampleMachine) (init 0) [.start scenelessArgs 5, .loop 1 (.still 5)]).map
      Thread.running = some false ∧
    (run (step exampleMachine) (init 0) [.start longestArgs 5,
      .loop 1 ⟨5, fun _ => 6, fun _ => 6, fun _ => 6, fun _ => true⟩]).map
      Thread.running = some false := by
  decide

end Hardcoder.HCPerfRunnable
