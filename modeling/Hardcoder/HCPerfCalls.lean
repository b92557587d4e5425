import Hardcoder.HCPerfAssertions

/-! The native calls of a pass and the statuses it hands to the statistics, in terms of
the tasks as they were before it. -/

namespace Hardcoder.HCPerfRunnable
open HCPerfManager Runs
open HCPerfStatThread (Object PerformanceStatus)
set_option autoImplicit false

section Calls
variable (vm : Machine)

namespace Thread
variable (r : Thread) (rd : Readings)

/-- The tasks that are bound no longer. -/
def unbound : List Nat := r.sys.currBindCore.filter fun t => t ∉ r.bindTasks vm rd

/-- `arrCancelTid` -/
def cancelList : List JInt :=
  filled (tidCount r.sys.task (r.unbound vm rd))
    (((vm.iterator (r.unbound vm rd)).filter fun t => (r.stopAt vm rd t).stopTime ≤ rd.cancel t).flatMap
      fun t => (r.sys.task t).bindTids)

/-- `tidList` -/
def tidList : List JInt :=
  filled (tidCount r.sys.task (r.bindTasks vm rd))
    (((vm.iterator (r.bindTasks vm rd)).filter fun t => rd.request t < (r.sys.task t).stopTime).flatMap
      fun t => (r.sys.task t).bindTids)

/-- The level that the request asks for. -/
def reqLevel (k : Resource) : JInt :=
  HCPerfManager.reqLevel r.sys.task (best r.sys.task k (r.runningTasks vm rd)) k

/-- The request, with what the tasks it is about leave in it. -/
def request : Request :=
  Request.adds r.sys.task rd.now ⟨0, 0, 0, MAX_VALUE⟩ (r.requestTasks vm rd)

def unifyCall : NativeCall :=
  .requestUnifyCpuIOThreadCoreGpu (r.request vm rd).scene (r.request vm rd).action
    (r.reqLevel vm rd) (r.tidList vm rd) (r.request vm rd).timeStamp (r.request vm rd).callerTid

/-- The tasks that stay in the list. -/
def left : List Nat := r.sys.listStartTask.filter fun t => ¬ r.Over vm rd t

def unifyStatus : PerformanceStatus :=
  ⟨rd.now, r.left vm rd, r.reqLevel vm rd .cpu, r.reqLevel vm rd .gpu, r.reqLevel vm rd .io,
    some (r.tidList vm rd)⟩

/-- A pass in which something has changed comes to its request. -/
def Requests : Prop :=
  (¬ ∀ t ∈ r.requestTasks vm rd, leftInterval r.sys.task rd.now t = MAX_VALUE.toInt) ∧
    Requestable r.sys.task rd.now (r.requestTasks vm rd)

/-- The part of the pass that makes the request. -/
def requesting : Done :=
  unifyRequest rd (r.scanned vm rd).toScan (r.request vm rd) (r.tidList vm rd)

/-- The parts of the pass that cancel levels. -/
def cancelling : List Done :=
  [.io, .gpu, .cpu].map (cancelLevel rd r.sys (r.scanned vm rd).toScan)

end Thread

variable {vm} {rd : Readings} {r : Thread}

theorem tids_requestTids {task : Nat → PerformanceTask} {ts : List Nat}
    (hneed : ∀ t ∈ ts, (task t).isNeedBindTids = true) : ∀ q : Request,
    (requestTids rd task q ts).2.1 =
      (ts.filter fun t => rd.request t < (task t).stopTime).flatMap fun t => (task t).bindTids := by
  induction ts with
  | nil => exact fun _ => rfl
  | cons t ts ih =>
    intro q
    obtain ⟨hself, hrest⟩ := List.forall_mem_cons.mp hneed
    rw [requestTids, List.filter_cons]
    by_cases hover : (task t).stopTime ≤ rd.request t
    · rw [if_pos hover, if_neg (by simpa using hover)]
      exact ih hrest q
    · have hlasts : rd.request t < (task t).stopTime := by omega
      rw [if_neg hover, if_neg (ne_of_eq_of_ne hself Bool.false_ne_true.symm),
        if_pos (decide_eq_true hlasts), List.flatMap_cons]
      exact congrArg ((task t).bindTids ++ ·) (ih hrest _)

theorem tids_cancelTids {task : Nat → PerformanceTask} {ts : List Nat}
    (hneed : ∀ t ∈ ts, (task t).isNeedBindTids = true) :
    (cancelTids rd task ts).1 =
      (ts.filter fun t => (task t).stopTime ≤ rd.cancel t).flatMap fun t => (task t).bindTids := by
  induction ts with
  | nil => rfl
  | cons t ts ih =>
    obtain ⟨hself, hrest⟩ := List.forall_mem_cons.mp hneed
    rw [cancelTids, List.filter_cons]
    by_cases hlasts : rd.cancel t < (task t).stopTime
    · rw [if_pos hlasts, if_neg (by simpa using hlasts)]
      exact ih hrest
    · have hover : (task t).stopTime ≤ rd.cancel t := by omega
      rw [if_neg hlasts, if_neg (ne_of_eq_of_ne hself Bool.false_ne_true.symm),
        if_pos (decide_eq_true hover), List.flatMap_cons]
      exact congrArg ((task t).bindTids ++ ·) (ih hrest)

theorem bindTids_stopAt (t : Nat) : (r.stopAt vm rd t).bindTids = (r.sys.task t).bindTids := by
  unfold Thread.stopAt
  split
  · rfl
  · rfl

theorem tidCount_congr {task task' : Nat → PerformanceTask} {set : List Nat}
    (h : ∀ t ∈ set, (task t).bindTids = (task' t).bindTids) : tidCount task set = tidCount task' set := by
  rw [tidCount, tidCount, List.map_congr_left fun t ht => congrArg List.length (h t ht)]

/-- The running tasks that bind threads are as they were. -/
theorem scanned_bindTasks (h : Valid r) {t : Nat} (ht : t ∈ r.bindTasks vm rd) :
    (r.scanned vm rd).task t = r.sys.task t ∧ (r.sys.task t).isNeedBindTids = true := by
  obtain ⟨hruns, hbinds⟩ := List.mem_filter.mp ht
  rw [(scanned_spec h.list_nodup).task, stopAt_of_notMem (notMem_hits_of_running hruns)]
  exact ⟨rfl, PerformanceTask.isNeedBindTids_of_binds hbinds⟩

theorem scanned_reqLevel (h : Valid r) (k : Resource) :
    HCPerfManager.reqLevel (r.scanned vm rd).task ((r.scanned vm rd).max k) k = r.reqLevel vm rd k := by
  have hscan := @scanned_spec vm r rd h.list_nodup
  rw [hscan.max, Thread.reqLevel]
  cases hbest : best r.sys.task k (r.runningTasks vm rd) with
  | none => rfl
  | some m =>
    rw [HCPerfManager.reqLevel, HCPerfManager.reqLevel, hscan.task,
      stopAt_of_notMem (notMem_hits_of_running (best_mem hbest).1)]

theorem scanned_tidList (h : Valid r) (q : Request) :
    filled (tidCount (r.scanned vm rd).task (r.scanned vm rd).needBindCore)
      (requestTids rd (r.scanned vm rd).task q (vm.iterator (r.scanned vm rd).needBindCore)).2.1 =
      r.tidList vm rd := by
  have hbind : (r.scanned vm rd).needBindCore = r.bindTasks vm rd :=
    (scanned_spec h.list_nodup).bind
  have htask : ∀ t ∈ vm.iterator (r.bindTasks vm rd),
      (r.scanned vm rd).task t = r.sys.task t ∧ (r.sys.task t).isNeedBindTids = true :=
    fun t ht => scanned_bindTasks h ((vm.iterator_perm _).mem_iff.mp ht)
  have hcount : tidCount (r.scanned vm rd).task (r.bindTasks vm rd) =
      tidCount r.sys.task (r.bindTasks vm rd) :=
    tidCount_congr fun t ht => by rw [(scanned_bindTasks h ht).1]
  have hfilter : ((vm.iterator (r.bindTasks vm rd)).filter fun t =>
      rd.request t < ((r.scanned vm rd).task t).stopTime) =
      (vm.iterator (r.bindTasks vm rd)).filter fun t => rd.request t < (r.sys.task t).stopTime :=
    List.filter_congr fun t ht => by rw [(htask t ht).1]
  rw [hbind, tids_requestTids fun t ht => by rw [(htask t ht).1]; exact (htask t ht).2, hcount,
    hfilter, Thread.tidList]
  refine congrArg (filled _) (List.flatMap_congr fun t ht => ?_)
  rw [(htask t (List.mem_of_mem_filter ht)).1]

theorem binds_unbound (h : Valid r) {t : Nat} (ht : t ∈ r.unbound vm rd) :
    (r.sys.task t).binds = true := (h.bind t (List.mem_of_mem_filter ht)).2

theorem isNeedBindTids_unbound (h : Valid r) {t : Nat} (ht : t ∈ vm.iterator (r.unbound vm rd)) :
    ((r.scanned vm rd).task t).isNeedBindTids = true := by
  rw [(vm.iterator_perm _).mem_iff] at ht
  exact h.isNeedBindTids rd (List.mem_of_mem_filter ht)

theorem scanned_cancelList (h : Valid r) :
    filled (tidCount (r.scanned vm rd).task (r.unbound vm rd))
      (cancelTids rd (r.scanned vm rd).task (vm.iterator (r.unbound vm rd))).1 =
      r.cancelList vm rd := by
  have hscan := @scanned_spec vm r rd h.list_nodup
  rw [tids_cancelTids fun t ht => isNeedBindTids_unbound h ht, funext hscan.task, Thread.cancelList,
    tidCount_congr fun t _ => bindTids_stopAt t]
  exact congrArg (filled _) (List.flatMap_congr fun t _ => bindTids_stopAt t)

/-- A set of tasks that bind threads has some. -/
theorem tidCount_pos {task : Nat → PerformanceTask} {set : List Nat}
    (h : ∀ t ∈ set, (task t).binds = true) : 0 < tidCount task set ↔ set ≠ [] := by
  constructor
  · rintro hpos rfl
    exact Nat.lt_irrefl _ hpos
  · intro hne
    obtain ⟨t, ts, rfl⟩ := List.exists_cons_of_ne_nil hne
    obtain ⟨tid, htid, -⟩ := List.any_eq_true.mp (h t List.mem_cons_self)
    rw [← length_flatMap_bindTids]
    exact List.length_pos_of_mem (List.mem_flatMap.mpr ⟨t, List.mem_cons_self, htid⟩)

/-! ### The parts of a pass -/

theorem thrown_of_alive {d : Done} (h : d.alive = true) : d.thrown = false := by
  rw [Done.alive, Bool.and_eq_true, Bool.not_eq_true'] at h
  exact h.2

theorem andThen_of_alive {d e : Done} (h : d.alive = true) :
    (d.andThen e).calls = d.calls ++ e.calls ∧ (d.andThen e).objects = d.objects ++ e.objects := by
  rw [Done.andThen, thrown_of_alive h, if_neg Bool.false_ne_true]
  exact ⟨rfl, rfl⟩

theorem cancelBindCore_done (h : Valid r) :
    cancelBindCore vm rd (r.scanned vm rd).toScan (r.unbound vm rd) =
      if r.unbound vm rd = [] then .nothing
      else called rd .cancelCpuCoreForThread (.cancelCpuCoreForThread (r.cancelList vm rd))
        (kept rd.now (r.left vm rd)) := by
  have hscan := @scanned_spec vm r rd h.list_nodup
  have hcount : 0 < tidCount (r.scanned vm rd).task (r.unbound vm rd) ↔ r.unbound vm rd ≠ [] := by
    apply tidCount_pos
    intro t ht
    rw [hscan.task, binds_stopAt]
    exact binds_unbound h ht
  unfold cancelBindCore
  dsimp only
  by_cases hnil : r.unbound vm rd = []
  · rw [if_pos hnil, if_neg fun hpos => hcount.mp hpos hnil]
  · rw [if_neg hnil, if_pos (hcount.mpr hnil), scanned_cancelList h,
      cancelTids_spec fun t ht => isNeedBindTids_unbound h ht, hscan.list]
    rfl

theorem requesting_done (h : Valid r) :
    (r.Requests vm rd → r.requesting vm rd =
      called rd .requestUnifyCpuIOThreadCoreGpu (r.unifyCall vm rd) (r.unifyStatus vm rd)) ∧
    (¬ r.Requests vm rd →
      (r.requesting vm rd).calls = [] ∧ (r.requesting vm rd).objects = []) := by
  have hlevel : (fun k => HCPerfManager.reqLevel (r.scanned vm rd).task ((r.scanned vm rd).max k) k) =
      r.reqLevel vm rd := funext fun k => scanned_reqLevel h k
  have hlt : (r.request vm rd).timeStamp.toInt < MAX_VALUE.toInt ↔ ¬ ∀ t ∈ r.requestTasks vm rd,
      leftInterval r.sys.task rd.now t = MAX_VALUE.toInt := timeStamp_adds.2
  have hasserted (hsome : ¬ ∀ t ∈ r.requestTasks vm rd,
      leftInterval r.sys.task rd.now t = MAX_VALUE.toInt) :
      asserted (r.request vm rd) (r.reqLevel vm rd) (r.tidList vm rd) = true ↔
        Requestable r.sys.task rd.now (r.requestTasks vm rd) := by
    rw [← hlevel, ← scanned_tidList h (r.request vm rd), Thread.request, asserted_iff h hsome,
      Requestable, or_iff_right hsome]
  unfold Thread.requesting unifyRequest
  rw [hlevel]
  dsimp only
  constructor
  · rintro ⟨hsome, hrequestable⟩
    rw [if_pos (hlt.mpr hsome), if_pos ((hasserted hsome).mpr hrequestable),
      (scanned_spec h.list_nodup).list]
    rfl
  · intro hnot
    by_cases hsome : ∀ t ∈ r.requestTasks vm rd, leftInterval r.sys.task rd.now t = MAX_VALUE.toInt
    · rw [if_neg fun h => hlt.mp h hsome]
      exact ⟨rfl, rfl⟩
    · rw [if_pos (hlt.mpr hsome), if_neg fun h => hnot ⟨hsome, (hasserted hsome).mp h⟩]
      exact ⟨rfl, rfl⟩

theorem requests_of_same (h : Valid r) (hsame : r.Same vm rd) :
    requests vm rd r.sys (r.scanned vm rd).toScan = .nothing := by
  unfold requests
  exact if_pos ((unchanged_iff h).mpr hsame)

theorem requests_of_changed (h : Valid r) (hchanged : ¬ r.Same vm rd) :
    (requests vm rd r.sys (r.scanned vm rd).toScan).calls =
      (cancelBindCore vm rd (r.scanned vm rd).toScan (r.unbound vm rd)).calls ++
        ((r.cancelling vm rd).flatMap Done.calls ++ (r.requesting vm rd).calls) ∧
    (requests vm rd r.sys (r.scanned vm rd).toScan).objects =
      (cancelBindCore vm rd (r.scanned vm rd).toScan (r.unbound vm rd)).objects ++
        ((r.cancelling vm rd).flatMap Done.objects ++ (r.requesting vm rd).objects) := by
  have hbind : (r.scanned vm rd).needBindCore = r.bindTasks vm rd := (scanned_spec h.list_nodup).bind
  have hstop : (r.sys.currBindCore.filter fun t => t ∉ (r.scanned vm rd).needBindCore) =
      r.unbound vm rd := by
    rw [hbind]
    rfl
  have hlevel (k : Resource) := @alive_cancelLevel rd r.sys (r.scanned vm rd).toScan k
  have hcancel : (cancelBindCore vm rd (r.scanned vm rd).toScan (r.unbound vm rd)).alive = true :=
    alive_cancelBindCore fun t ht => h.isNeedBindTids rd (List.mem_of_mem_filter ht)
  unfold requests
  dsimp only
  rw [if_neg fun hnot => hchanged ((unchanged_iff h).mp hnot), hstop, levelRequest_eq h,
    scanned_tidList h, (requestTids_spec (fun t ht => h.isNeedBindTids_needBindCore rd ht) _).2]
  have hchecked : checked rd .requestTids true .nothing = .nothing := rfl
  rw [hchecked, (andThen_of_alive hcancel).1, (andThen_of_alive hcancel).2,
    (andThen_of_alive rfl).1, (andThen_of_alive rfl).2, (andThen_of_alive (hlevel .io)).1,
    (andThen_of_alive (hlevel .io)).2, (andThen_of_alive (hlevel .gpu)).1,
    (andThen_of_alive (hlevel .gpu)).2, (andThen_of_alive (hlevel .cpu)).1,
    (andThen_of_alive (hlevel .cpu)).2]
  simp only [Thread.cancelling, Thread.requesting, Thread.request, List.map_cons, List.map_nil,
    List.flatMap_cons, List.flatMap_nil, List.append_assoc, List.append_nil, Done.nothing,
    List.nil_append, and_self]

/-! ### What is among the calls and the statuses -/

theorem unbound_of_same (hsame : r.Same vm rd) : r.unbound vm rd = [] :=
  List.filter_eq_nil_iff.mpr fun t ht => by simpa using hsame.2.2 t ht

theorem mem_cancelling_calls {c : NativeCall} (hc : c ∈ (r.cancelling vm rd).flatMap Done.calls) :
    ∃ k callerTid, c = .cancelHighFreq k callerTid := by
  obtain ⟨d, hd, hc⟩ := List.mem_flatMap.mp hc
  obtain ⟨k, -, rfl⟩ := List.mem_map.mp hd
  unfold cancelLevel at hc
  split at hc
  · unfold called at hc
    dsimp only at hc
    split at hc
    · exact ⟨_, _, List.mem_singleton.mp hc⟩
    · cases hc
  · cases hc

theorem mem_cancelling_objects {o : Object} (ho : o ∈ (r.cancelling vm rd).flatMap Done.objects) :
    ∃ k list, o = .status (cancelledStatus rd.now list k) := by
  obtain ⟨d, hd, ho⟩ := List.mem_flatMap.mp ho
  obtain ⟨k, -, rfl⟩ := List.mem_map.mp hd
  unfold cancelLevel at ho
  split at ho
  · exact ⟨_, _, List.mem_singleton.mp ho⟩
  · cases ho

theorem mem_called {caller : Caller} {c c' : NativeCall} {p : PerformanceStatus} :
    c' ∈ (called rd caller c p).calls ↔ rd.checkEnv caller = true ∧ c' = c := by
  unfold called
  dsimp only
  split
  · rename_i hflag
    exact List.mem_singleton.trans (and_iff_right hflag).symm
  · rename_i hflag
    exact iff_of_false (List.not_mem_nil) fun h => hflag h.1

theorem cancelCpuCoreForThread_mem (h : Valid r) {tids : List JInt} :
    .cancelCpuCoreForThread tids ∈ (requests vm rd r.sys (r.scanned vm rd).toScan).calls ↔
      r.unbound vm rd ≠ [] ∧ rd.checkEnv .cancelCpuCoreForThread = true ∧
        tids = r.cancelList vm rd := by
  by_cases hsame : r.Same vm rd
  · rw [requests_of_same h hsame]
    exact iff_of_false List.not_mem_nil fun hne => hne.1 (unbound_of_same hsame)
  have hother : (NativeCall.cancelCpuCoreForThread tids) ∉ (r.requesting vm rd).calls := by
    by_cases hr : r.Requests vm rd
    · rw [(requesting_done h).1 hr, mem_called]
      exact fun hc => by cases hc.2
    · rw [((requesting_done h).2 hr).1]
      exact List.not_mem_nil
  have hcancel : (NativeCall.cancelCpuCoreForThread tids) ∉
      (r.cancelling vm rd).flatMap Done.calls := fun hc => by
    obtain ⟨k, callerTid, hc⟩ := mem_cancelling_calls hc
    cases hc
  rw [(requests_of_changed h hsame).1, List.mem_append, List.mem_append, or_iff_left (not_or.mpr
    ⟨hcancel, hother⟩), cancelBindCore_done h]
  by_cases hnil : r.unbound vm rd = []
  · rw [if_pos hnil]
    exact iff_of_false List.not_mem_nil fun hne => hne.1 hnil
  · rw [if_neg hnil, mem_called, NativeCall.cancelCpuCoreForThread.injEq]
    exact (and_iff_right hnil).symm

theorem requestUnify_mem (h : Valid r) {scene timeout callerTid : JInt} {action : JLong}
    {level : Resource → JInt} {tids : List JInt} :
    .requestUnifyCpuIOThreadCoreGpu scene action level tids timeout callerTid ∈
        (requests vm rd r.sys (r.scanned vm rd).toScan).calls ↔
      ¬ r.Same vm rd ∧ r.Requests vm rd ∧ rd.checkEnv .requestUnifyCpuIOThreadCoreGpu = true ∧
        .requestUnifyCpuIOThreadCoreGpu scene action level tids timeout callerTid =
          r.unifyCall vm rd := by
  by_cases hsame : r.Same vm rd
  · rw [requests_of_same h hsame]
    exact iff_of_false List.not_mem_nil fun hne => hne.1 hsame
  have hbind : (NativeCall.requestUnifyCpuIOThreadCoreGpu scene action level tids timeout callerTid) ∉
      (cancelBindCore vm rd (r.scanned vm rd).toScan (r.unbound vm rd)).calls := by
    rw [cancelBindCore_done h]
    split
    · exact List.not_mem_nil
    · rw [mem_called]
      exact fun hc => by cases hc.2
  have hcancel : (NativeCall.requestUnifyCpuIOThreadCoreGpu scene action level tids timeout
      callerTid) ∉ (r.cancelling vm rd).flatMap Done.calls := fun hc => by
    obtain ⟨k, callerTid, hc⟩ := mem_cancelling_calls hc
    cases hc
  rw [(requests_of_changed h hsame).1, List.mem_append, List.mem_append, or_iff_right hbind,
    or_iff_right hcancel, and_iff_right hsame]
  by_cases hr : r.Requests vm rd
  · rw [(requesting_done h).1 hr, mem_called, and_iff_right hr]
  · rw [((requesting_done h).2 hr).1]
    exact iff_of_false List.not_mem_nil fun hc => hr hc.1

/-- What is read of the requests among the calls of a pass is read of its one request. -/
theorem filterMap_requests {α : Type} (h : Valid r) {f : NativeCall → Option α}
    (hthreads : ∀ tids, f (.cancelCpuCoreForThread tids) = none)
    (hlevel : ∀ k callerTid, f (.cancelHighFreq k callerTid) = none) {x : α} :
    x ∈ (requests vm rd r.sys (r.scanned vm rd).toScan).calls.filterMap f ↔
      ¬ r.Same vm rd ∧ r.Requests vm rd ∧ rd.checkEnv .requestUnifyCpuIOThreadCoreGpu = true ∧
        f (r.unifyCall vm rd) = some x := by
  rw [List.mem_filterMap]
  constructor
  · rintro ⟨c, hc, hx⟩
    cases c with
    | cancelCpuCoreForThread tids => cases (hthreads tids).symm.trans hx
    | cancelHighFreq k callerTid => cases (hlevel k callerTid).symm.trans hx
    | requestUnifyCpuIOThreadCoreGpu =>
      obtain ⟨hchanged, hr, hflag, heq⟩ := (requestUnify_mem h).mp hc
      exact ⟨hchanged, hr, hflag, heq ▸ hx⟩
  · rintro ⟨hchanged, hr, hflag, hx⟩
    exact ⟨r.unifyCall vm rd, (requestUnify_mem h).mpr ⟨hchanged, hr, hflag, rfl⟩, hx⟩

/-- A status keeps or cancels, or it is that of the request. -/
theorem status_mem (h : Valid r) {p : PerformanceStatus}
    (hp : .status p ∈ (requests vm rd r.sys (r.scanned vm rd).toScan).objects) :
    (∃ list, p = kept rd.now list ∨ ∃ k, p = cancelledStatus rd.now list k) ∨
      (¬ r.Same vm rd ∧ r.Requests vm rd ∧ p = r.unifyStatus vm rd) := by
  by_cases hsame : r.Same vm rd
  · rw [requests_of_same h hsame] at hp
    cases hp
  rw [(requests_of_changed h hsame).2, List.mem_append, List.mem_append] at hp
  rcases hp with hp | hp | hp
  · rw [cancelBindCore_done h] at hp
    split at hp
    · cases hp
    · exact .inl ⟨_, .inl (Object.status.inj (List.mem_singleton.mp hp))⟩
  · obtain ⟨k, list, hp⟩ := mem_cancelling_objects hp
    exact .inl ⟨list, .inr ⟨k, Object.status.inj hp⟩⟩
  · by_cases hr : r.Requests vm rd
    · rw [(requesting_done h).1 hr] at hp
      exact .inr ⟨hsame, hr, Object.status.inj (List.mem_singleton.mp hp)⟩
    · rw [((requesting_done h).2 hr).2] at hp
      cases hp

theorem unifyStatus_mem (h : Valid r) (hchanged : ¬ r.Same vm rd) (hr : r.Requests vm rd) :
    .status (r.unifyStatus vm rd) ∈ (requests vm rd r.sys (r.scanned vm rd).toScan).objects := by
  rw [(requests_of_changed h hchanged).2, (requesting_done h).1 hr]
  exact List.mem_append_right _ (List.mem_append_right _ (List.mem_singleton_self _))

end Calls

end Hardcoder.HCPerfRunnable
