import Hardcoder.HCPerfStatThread
import Hardcoder.HCPerfScan

/-! `HCPerfRunnable.run` (HCPerfManager.java) with every reading of the clock, what it
hands to the statistics, and its assertions. A failed assertion ends the thread. -/

namespace Hardcoder
set_option autoImplicit false

namespace HCPerfManager

/-- The arguments of `start`, whatever they are. -/
structure StartArgs where
  delay : JInt
  cpuLevel : JInt
  ioLevel : JInt
  gpuLevel : JInt
  bindTids : Option (List JInt)
  timeout : JInt
  scene : JInt
  action : JLong
  callerTid : JInt

def StartCall.args (c : StartCall) : StartArgs :=
  ⟨c.delay, c.cpuLevel, c.ioLevel, c.gpuLevel, c.bindTids, c.timeout, c.scene, c.action,
    c.callerTid⟩

namespace StartArgs

def isParamsValid (a : StartArgs) : Bool :=
  ¬ (a.delay.toInt < 0 ∨ a.cpuLevel.toInt < 0 ∨ a.gpuLevel.toInt < 0 ∨ a.ioLevel.toInt < 0 ∨
    a.bindTids = none ∨ a.timeout.toInt ≤ 0)

/-- `start` makes a task of them. -/
def accepted (a : StartArgs) : Bool :=
  a.isParamsValid ∧
    ¬ (a.cpuLevel = 0 ∧ a.ioLevel = 0 ∧ a.gpuLevel = 0 ∧ a.bindTids = some [0])

def newTask (a : StartArgs) (initTime : Int) : PerformanceTask :=
  let startTime := initTime + a.delay.toInt
  ⟨a.cpuLevel, a.gpuLevel, a.ioLevel, a.bindTids.getD [], a.scene, a.action, a.callerTid, startTime,
    startTime + a.timeout.toInt⟩

end StartArgs

/-- `start`, when the clock reads `initTime`. -/
def Sys.startArgs (s : Sys) (a : StartArgs) (initTime : Int) : Sys :=
  if a.accepted then
    { s with
      clock := initTime
      made := s.made + 1
      task := Function.update s.task s.made (a.newTask initTime)
      taskQueue := s.taskQueue ++ [.start s.made] }
  else { s with clock := initTime }

theorem startArgs_args (s : Sys) (c : StartCall) (initTime : Int) :
    s.startArgs c.args initTime = s.start c initTime := by
  have haccepted : c.args.accepted = true ↔ ¬ (HCPerfManager.isParamsValid c = false ∨
      (c.cpuLevel = 0 ∧ c.ioLevel = 0 ∧ c.gpuLevel = 0 ∧ c.bindTids = some [0])) := by
    rw [StartArgs.accepted, decide_eq_true_eq, not_or, Bool.not_eq_false]
    rfl
  unfold Sys.startArgs Sys.start
  by_cases h : c.args.accepted = true
  · rw [if_pos h, if_neg (haccepted.mp h)]
    rfl
  · rw [if_neg h, if_pos (not_not.mp fun hnot => h (haccepted.mpr hnot))]

end HCPerfManager

namespace HCPerfRunnable
open HCPerfManager Runs
open HCPerfStatThread (Object PerformanceStatus)

/-- Who calls `isCheckEnv` in a pass. -/
inductive Caller where
  | cancelTids
  | cancelCpuCoreForThread
  | requestTids
  | cancelHighFreq (resource : Resource)
  | requestUnifyCpuIOThreadCoreGpu
deriving DecidableEq

/-- What one pass reads: the clock, before the loop over `listStartTask` and for each task
in each of the three loops, and the flag. -/
structure Readings where
  now : Int
  scan : Nat → Int
  cancel : Nat → Int
  request : Nat → Int
  checkEnv : Caller → Bool

/-- The pass over `listStartTask`, with what it adds to the queue of the statistics. -/
structure Visit extends Scan where
  objects : List Object

/-- A status that keeps every level. -/
def kept (time : Int) (listStartTask : List Nat) : PerformanceStatus :=
  ⟨time, listStartTask, CPU_LEVEL_KEEP, GPU_LEVEL_KEEP, IO_LEVEL_KEEP, none⟩

/-- The status of a resource that is cancelled. -/
def cancelledStatus (time : Int) (listStartTask : List Nat) : Resource → PerformanceStatus
  | .cpu => { kept time listStartTask with reqCpuLevel := CPU_LEVEL_CANCEL }
  | .gpu => { kept time listStartTask with reqGpuLevel := GPU_LEVEL_CANCEL }
  | .io => { kept time listStartTask with reqIoLevel := IO_LEVEL_CANCEL }

section Pass
variable (vm : Machine) (rd : Readings)

namespace Visit

/-- One pass of the loop, when `rest` is still to come. -/
def next (v : Visit) (task : Nat) (rest : List Nat) : Visit where
  toScan := v.toScan.next vm (rd.scan task) task
  objects :=
    if v.setStopTask.contains (vm.hashCode task) then
      v.objects ++ [.status (kept (rd.scan task) (v.listStartTask ++ task :: rest)), .task task]
    else v.objects

def loop : Visit → List Nat → Visit
  | v, [] => v
  | v, task :: rest => (v.next vm rd task rest).loop rest

end Visit

/-- The loop over the tasks that are bound no longer: their threads, and whether each of
them has some. -/
def cancelTids (task : Nat → PerformanceTask) : List Nat → List JInt × Bool
  | [] => ([], true)
  | t :: ts =>
    if rd.cancel t < (task t).stopTime then cancelTids task ts
    else if (task t).isNeedBindTids = false then ([], false)
    else ((task t).bindTids ++ (cancelTids task ts).1, (cancelTids task ts).2)

/-- The loop over the tasks that bind threads. -/
def requestTids (task : Nat → PerformanceTask) : Request → List Nat → Request × List JInt × Bool
  | q, [] => (q, [], true)
  | q, t :: ts =>
    if (task t).stopTime ≤ rd.request t then requestTids task q ts
    else if (task t).isNeedBindTids = false then (q, [], false)
    else
      let r := requestTids task (q.add task rd.now t) ts
      (r.1, (task t).bindTids ++ r.2.1, r.2.2)

/-- What the pass has done so far. -/
structure Done where
  calls : List NativeCall
  objects : List Object
  running : Bool
  /-- an assertion has failed -/
  thrown : Bool

namespace Done

def nothing : Done := ⟨[], [], true, false⟩

/-- `assertFail`, in the part of the pass that has done nothing yet. -/
def fail : Done := ⟨[], [], true, true⟩

def andThen (d e : Done) : Done :=
  if d.thrown then d
  else ⟨d.calls ++ e.calls, d.objects ++ e.objects, d.running && e.running, e.thrown⟩

end Done

/-- A call that is made when the flag is set, and its status. -/
def called (caller : Caller) (c : NativeCall) (p : PerformanceStatus) : Done :=
  ⟨if rd.checkEnv caller then [c] else [], [.status p], true, false⟩

/-- A loop has met a task without threads: the assertion fails, or `uninit` is called. -/
def checked (caller : Caller) (ok : Bool) (d : Done) : Done :=
  if ok then d
  else if rd.checkEnv caller then .fail
  else { d with running := false }

section Calls
variable (s : Sys) (z : Scan)

def cancelBindCore (stopSet : List Nat) : Done :=
  let cancelTidCount := tidCount z.task stopSet
  if 0 < cancelTidCount then
    let r := cancelTids rd z.task (vm.iterator stopSet)
    checked rd .cancelTids r.2 (called rd .cancelCpuCoreForThread
      (.cancelCpuCoreForThread (filled cancelTidCount r.1)) (kept rd.now z.listStartTask))
  else .nothing

/-- The cancel call for a level that no task asks for any more. -/
def cancelLevel (r : Resource) : Done :=
  match z.max r, s.curr r with
  | none, some t => called rd (.cancelHighFreq r) (.cancelHighFreq r (z.task t).callerTid)
      (cancelledStatus rd.now z.listStartTask r)
  | _, _ => .nothing

/-- What the levels add to the request of the threads. -/
def levelRequest (q : Request) : Request :=
  ((q.addLevel z.task rd.now (z.max .io)).addLevel z.task rd.now (z.max .gpu)).addLevel z.task rd.now
    (z.max .cpu)

def unifyRequest (q : Request) (tidList : List JInt) : Done :=
  let level := fun r => reqLevel z.task (z.max r) r
  if q.timeStamp.toInt < MAX_VALUE.toInt then
    if asserted q level tidList then
      called rd .requestUnifyCpuIOThreadCoreGpu
        (.requestUnifyCpuIOThreadCoreGpu q.scene q.action level tidList q.timeStamp q.callerTid)
        ⟨rd.now, z.listStartTask, level .cpu, level .gpu, level .io, some tidList⟩
    else .fail
  else .nothing

/-- What follows the pass over `listStartTask`. -/
def requests : Done :=
  let stopSet := s.currBindCore.filter fun t => t ∉ z.needBindCore
  if unchanged s z stopSet then .nothing
  else
    let r := requestTids rd z.task ⟨0, 0, 0, MAX_VALUE⟩ (vm.iterator z.needBindCore)
    (cancelBindCore vm rd z stopSet).andThen <|
      (checked rd .requestTids r.2.2 .nothing).andThen <|
        (cancelLevel rd s z .io).andThen <| (cancelLevel rd s z .gpu).andThen <|
          (cancelLevel rd s z .cpu).andThen <|
            unifyRequest rd z (levelRequest rd z r.1) (filled (tidCount z.task z.needBindCore) r.2.1)

end Calls

end Pass

structure Thread where
  sys : Sys
  /-- what has been added to the queue of the statistics -/
  objectQueue : List Object
  /-- the tasks that were in the list when a stop of their hash code was taken from the queue -/
  stopped : List Nat
  running : Bool

def init (clock : Int) : Thread := ⟨HCPerfManager.init clock, [], [], true⟩

inductive Action where
  | start (a : StartArgs) (initTime : Int)
  | stop (hashCode : JInt)
  /-- the loop takes up to so many elements from the queue, and makes its pass -/
  | loop (polled : Nat) (rd : Readings)

section Thread
variable (vm : Machine)

/-- The tasks with the given hash code. -/
def withHash (hashCode : JInt) (tasks : List Nat) : List Nat :=
  tasks.filter fun t => vm.hashCode t = hashCode

namespace Thread

/-- One `poll`. -/
def poll (r : Thread) (q : Queued) : Thread :=
  { r with
    sys := r.sys.poll vm q
    stopped :=
      match q with
      | .start _ => r.stopped
      | .stop hashCode => r.stopped ++ withHash vm hashCode r.sys.listStartTask }

/-- The loop takes elements from the queue, until it is empty. -/
def taking (r : Thread) : Nat → Thread
  | 0 => r
  | polled + 1 =>
    match r.sys.taskQueue with
    | [] => r
    | q :: taskQueue => ({ r with sys := { r.sys with taskQueue := taskQueue } }.poll vm q).taking polled

def scanned (r : Thread) (rd : Readings) : Visit :=
  Visit.loop vm rd ⟨r.sys.scan, []⟩ r.sys.listStartTask

/-- The body of the loop after the polls. -/
def pass (r : Thread) (rd : Readings) : Thread :=
  let v := r.scanned vm rd
  let d := requests vm rd r.sys v.toScan
  { r with
    sys := r.sys.finish rd.now v.toScan d.calls
    objectQueue := r.objectQueue ++ v.objects ++ d.objects
    running := d.running && !d.thrown }

end Thread

def step (r : Thread) : Action → Option Thread
  | .start a initTime => some { r with sys := r.sys.startArgs a initTime }
  | .stop hashCode => some { r with sys := r.sys.stop hashCode }
  | .loop polled rd => if r.running then some ((r.taking vm polled).pass vm rd) else none

end Thread

/-! ### One reading for the whole pass -/

/-- The clock stands still during the pass, and the flag is set. -/
def Readings.still (now : Int) : Readings :=
  ⟨now, fun _ => now, fun _ => now, fun _ => now, fun _ => true⟩

/-- The calls; nothing when an assertion fails. -/
def Done.result (d : Done) : Option (List NativeCall) := if d.thrown then none else some d.calls

section Still
variable {vm : Machine} {now : Int}

theorem result_andThen (d e : Done) :
    (d.andThen e).result = d.result.bind fun cs => e.result.map (cs ++ ·) := by
  rcases d with ⟨calls, objects, running, thrown⟩
  cases thrown with
  | true => rfl
  | false =>
    rcases e with ⟨calls', objects', running', thrown'⟩
    cases thrown' with
    | true => rfl
    | false => rfl

theorem result_called (caller : Caller) (c : NativeCall) (p : PerformanceStatus) :
    (called (.still now) caller c p).result = some [c] := rfl

theorem result_checked (caller : Caller) (ok : Bool) (d : Done) :
    (checked (.still now) caller ok d).result = if ok then d.result else none := by
  cases ok <;> rfl

theorem toScan_loop (vm : Machine) (rd : Readings) {rest : List Nat} : ∀ {v : Visit},
    (v.loop vm rd rest).toScan = rest.foldl (fun z t => z.next vm (rd.scan t) t) v.toScan := by
  induction rest with
  | nil => exact rfl
  | cons t rest ih =>
    intro v
    rw [Visit.loop, ih]
    rfl

theorem toScan_scanned_still (r : Thread) :
    (r.scanned vm (.still now)).toScan = r.sys.scanned vm now :=
  toScan_loop vm _

theorem cancelTids_still (task : Nat → PerformanceTask) (ts : List Nat) :
    HCPerfManager.cancelTids task now ts =
      if (cancelTids (.still now) task ts).2 then some (cancelTids (.still now) task ts).1
      else none := by
  induction ts with
  | nil => rfl
  | cons t ts ih =>
    have hcancel : (Readings.still now).cancel t = now := rfl
    rw [HCPerfManager.cancelTids, cancelTids, hcancel]
    by_cases hlasts : now < (task t).stopTime
    · rw [if_pos hlasts, if_pos hlasts, ih]
    rw [if_neg hlasts, if_neg hlasts]
    by_cases hneed : (task t).isNeedBindTids = false
    · rw [if_pos hneed, if_pos hneed]
      rfl
    · rw [if_neg hneed, if_neg hneed, ih]
      split
      · rfl
      · rfl

theorem requestTids_still (task : Nat → PerformanceTask) (ts : List Nat) : ∀ q : Request,
    HCPerfManager.requestTids task now q ts =
      if (requestTids (.still now) task q ts).2.2 then
        some ((requestTids (.still now) task q ts).1, (requestTids (.still now) task q ts).2.1)
      else none := by
  induction ts with
  | nil => exact fun _ => rfl
  | cons t ts ih =>
    intro q
    have hrequest : (Readings.still now).request t = now := rfl
    rw [HCPerfManager.requestTids, requestTids, hrequest]
    by_cases hover : (task t).stopTime ≤ now
    · rw [if_pos hover, if_pos hover, ih]
    rw [if_neg hover, if_neg hover]
    by_cases hneed : (task t).isNeedBindTids = false
    · rw [if_pos hneed, if_pos hneed]
      rfl
    · have hnow : (Readings.still now).now = now := rfl
      rw [if_neg hneed, if_neg hneed, ih, hnow]
      dsimp only
      split
      · rfl
      · rfl

theorem result_cancelLevel (s : Sys) (z : Scan) (r : Resource) :
    (cancelLevel (.still now) s z r).result =
      some (HCPerfManager.cancelLevel z.task (s.curr r) (z.max r) r) := by
  unfold cancelLevel HCPerfManager.cancelLevel
  cases z.max r with
  | some m => rfl
  | none =>
    cases s.curr r with
    | none => rfl
    | some t => rfl

theorem result_unifyRequest (z : Scan) (q : Request) (tidList : List JInt) :
    (unifyRequest (.still now) z q tidList).result =
      HCPerfManager.unifyRequest q (fun r => reqLevel z.task (z.max r) r) tidList := by
  unfold unifyRequest HCPerfManager.unifyRequest
  dsimp only
  split
  · split
    · rfl
    · rfl
  · rfl

theorem result_cancelBindCore (z : Scan) (stopSet : List Nat) :
    (cancelBindCore vm (.still now) z stopSet).result =
      HCPerfManager.cancelBindCore vm now z.task stopSet := by
  unfold cancelBindCore HCPerfManager.cancelBindCore
  dsimp only
  split
  · rw [result_checked, result_called, cancelTids_still]
    split <;> rfl
  · rfl

/-- When the clock stands still during the pass, its calls are the ones that `calls` makes. -/
theorem result_requests (s : Sys) (z : Scan) :
    (requests vm (.still now) s z).result = calls vm now s z := by
  unfold requests calls
  dsimp only
  split
  · rfl
  · rw [result_andThen, result_andThen, result_andThen, result_andThen, result_andThen,
      result_checked, result_cancelLevel, result_cancelLevel, result_cancelLevel,
      result_unifyRequest, result_cancelBindCore, request, requestTids_still]
    refine congrArg (Option.bind _) (funext fun cancelled => ?_)
    by_cases hok : (requestTids (.still now) z.task ⟨0, 0, 0, MAX_VALUE⟩
        (vm.iterator z.needBindCore)).2.2 = true
    · rw [if_pos hok, if_pos hok]
      simp only [Done.result, Done.nothing, Bool.false_eq_true, if_false, Option.bind_some,
        Option.map_map, cancelLevels]
      refine congrArg (Option.map · _) (funext fun cs => ?_)
      simp only [Function.comp_apply, List.append_assoc, List.nil_append]
    · rw [if_neg hok, if_neg hok]
      rfl

theorem running_andThen {d e : Done} (hd : d.running = true) (he : e.running = true) :
    (d.andThen e).running = true := by
  unfold Done.andThen
  split
  · exact hd
  · exact Bool.and_eq_true_iff.mpr ⟨hd, he⟩

theorem running_checked {caller : Caller} {ok : Bool} {d : Done} (h : d.running = true) :
    (checked (.still now) caller ok d).running = true := by
  cases ok with
  | true => exact h
  | false => rfl

theorem running_requests_still (s : Sys) (z : Scan) :
    (requests vm (.still now) s z).running = true := by
  have hlevel (r : Resource) : (cancelLevel (.still now) s z r).running = true := by
    unfold cancelLevel
    split
    · rfl
    · rfl
  have hcancel (stopSet : List Nat) :
      (cancelBindCore vm (.still now) z stopSet).running = true := by
    unfold cancelBindCore
    dsimp only
    split
    · exact running_checked rfl
    · rfl
  have hunify (q : Request) (tidList : List JInt) :
      (unifyRequest (.still now) z q tidList).running = true := by
    unfold unifyRequest
    dsimp only
    split
    · split
      · rfl
      · rfl
    · rfl
  unfold requests
  dsimp only
  split
  · rfl
  · apply running_andThen (hcancel _)
    apply running_andThen (running_checked rfl)
    exact running_andThen (hlevel _) (running_andThen (hlevel _) (running_andThen (hlevel _)
      (hunify _ _)))

theorem sys_taking (vm : Machine) (polled : Nat) : ∀ r : Thread,
    (r.taking vm polled).sys = r.sys.taking vm polled := by
  induction polled with
  | zero => exact fun _ => rfl
  | succ polled ih =>
    intro r
    unfold Thread.taking Sys.taking
    cases r.sys.taskQueue with
    | nil => rfl
    | cons q taskQueue => exact ih _

theorem pass_still {r : Thread} {s : Sys} (h : r.sys.endLoop vm now = some s) :
    (r.pass vm (.still now)).sys = s ∧ (r.pass vm (.still now)).running = true := by
  obtain ⟨cs, hcalls, hs⟩ := Option.map_eq_some_iff.mp h
  have hscan := @toScan_scanned_still vm now r
  rw [← result_requests, ← hscan, Done.result] at hcalls
  have hthrown : (requests vm (.still now) r.sys (r.scanned vm (.still now)).toScan).thrown = false :=
    Bool.eq_false_iff.mpr fun hthrown => by
      rw [if_pos hthrown] at hcalls
      cases hcalls
  rw [hthrown, if_neg Bool.false_ne_true] at hcalls
  constructor
  · rw [← hs, ← Option.some.inj hcalls, ← hscan]
    rfl
  · exact Bool.and_eq_true_iff.mpr ⟨running_requests_still _ _, by rw [hthrown]; rfl⟩

end Still

/-- The same action, in a pass of which the clock stands still. -/
def still : HCPerfManager.Action → Action
  | .start c initTime => .start c.args initTime
  | .stop hashCode => .stop hashCode
  | .loop polled now => .loop polled (.still now)

/-- Every run of the manager with one reading for each pass is a run of the thread. -/
theorem run_still (vm : Machine) {as : List HCPerfManager.Action} : ∀ {r : Thread} {s : Sys},
    r.running = true → run (HCPerfManager.step vm) r.sys as = some s →
    ∃ r', run (step vm) r (as.map still) = some r' ∧ r'.sys = s ∧ r'.running = true := by
  induction as with
  | nil =>
    intro r s hrunning h
    exact ⟨r, rfl, Option.some.inj h, hrunning⟩
  | cons a as ih =>
    intro r s hrunning h
    obtain ⟨s', hstep, h⟩ := run_cons.mp h
    have hsim : ∃ r', step vm r (still a) = some r' ∧ r'.sys = s' ∧ r'.running = true := by
      cases a with
      | start c initTime =>
        rw [HCPerfManager.step] at hstep
        split at hstep
        · refine ⟨_, rfl, ?_, hrunning⟩
          rw [← Option.some.inj hstep]
          exact startArgs_args r.sys c initTime
        · cases hstep
      | stop hashCode => exact ⟨_, rfl, Option.some.inj hstep, hrunning⟩
      | loop polled now =>
        rw [HCPerfManager.step] at hstep
        split at hstep
        · rw [← sys_taking] at hstep
          exact ⟨_, if_pos hrunning, pass_still hstep⟩
        · cases hstep
    obtain ⟨r', hr', rfl, hrunning'⟩ := hsim
    obtain ⟨r'', hr'', hs⟩ := ih hrunning' h
    exact ⟨r'', run_cons.mpr ⟨r', hr', hr''⟩, hs⟩

end HCPerfRunnable
end Hardcoder
