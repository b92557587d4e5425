import Mathlib.Algebra.GroupWithZero.Nat
import Mathlib.Logic.Function.Basic
import Hardcoder.Amc

/-! `HCPerfManager` (HCPerfManager.java): the tasks that `start` and `stop` queue, and the
loop of `HCPerfRunnable.run`, which arbitrates between the tasks that are running and
calls the native methods. A task is known by its number, the order in which `start` makes
them; `checkEnv` is true. -/

namespace Hardcoder
set_option autoImplicit false

/-- `Integer.MAX_VALUE` -/
def MAX_VALUE : JInt := 2147483647

/-- `Math.min` -/
def jmin (a b : JInt) : JInt := if a.toInt ≤ b.toInt then a else b

namespace HCPerfManager

/-- What a task may ask a level of. -/
inductive Resource where
  | cpu
  | gpu
  | io
deriving DecidableEq

structure PerformanceTask where
  cpuLevel : JInt
  gpuLevel : JInt
  ioLevel : JInt
  bindTids : List JInt
  scene : JInt
  action : JLong
  callerTid : JInt
  startTime : Int
  stopTime : Int
deriving DecidableEq

namespace PerformanceTask

def level (task : PerformanceTask) : Resource → JInt
  | .cpu => task.cpuLevel
  | .gpu => task.gpuLevel
  | .io => task.ioLevel

/-- The array is not empty, and not one thread id that is none. -/
def isNeedBindTids (task : PerformanceTask) : Bool :=
  match task.bindTids with
  | [] => false
  | [tid] => decide (0 < tid.toInt)
  | _ => true

/-- The loop of the scan over `bindTids`. -/
def binds (task : PerformanceTask) : Bool := task.bindTids.any fun tid => decide (0 < tid.toInt)

end PerformanceTask

/-- The arguments of `start`; every call has a caller and a scene or an action. -/
structure StartCall where
  delay : JInt
  cpuLevel : JInt
  ioLevel : JInt
  gpuLevel : JInt
  bindTids : Option (List JInt)
  timeout : JInt
  scene : JInt
  action : JLong
  callerTid : JInt
  callerTid_pos : 0 < callerTid.toInt
  scene_or_action : 0 < scene.toInt ∨ 0 < action.toInt

/-- An element of `taskQueue`. -/
inductive Queued where
  | start (task : Nat)
  | stop (hashCode : JInt)
deriving DecidableEq

/-- What the virtual machine chooses: identity hash codes, and the order in which a
`HashSet` of tasks is visited. -/
structure Machine where
  hashCode : Nat → JInt
  iterator : List Nat → List Nat
  iterator_perm : ∀ set, (iterator set).Perm set

inductive NativeCall where
  | requestUnifyCpuIOThreadCoreGpu (scene : JInt) (action : JLong) (level : Resource → JInt)
      (bindTids : List JInt) (timeout callerTid : JInt)
  | cancelCpuCoreForThread (bindTids : List JInt)
  /-- `cancelCpuHighFreq`, `cancelGpuHighFreq` and `cancelHighIOFreq` -/
  | cancelHighFreq (resource : Resource) (callerTid : JInt)

/-- The phone, as the native calls see it. -/
structure Device where
  level : Resource → JInt
  bound : List JInt

namespace Device

def apply (d : Device) : NativeCall → Device
  | .requestUnifyCpuIOThreadCoreGpu _ _ level bindTids _ _ =>
    ⟨fun r => if 0 < (level r).toInt then level r else d.level r, d.bound ++ bindTids⟩
  | .cancelCpuCoreForThread bindTids => { d with bound := d.bound.filter fun tid => !bindTids.contains tid }
  | .cancelHighFreq resource _ => { d with level := Function.update d.level resource 0 }

end Device

/-- The variables of one pass over `listStartTask`. -/
structure Scan where
  task : Nat → PerformanceTask
  listStartTask : List Nat
  setStartedTask : List JInt
  setStopTask : List JInt
  nextWakeInterval : Int
  max : Resource → Option Nat
  needBindCore : List Nat

/-- The variables of the requests: those of the last task that was added. -/
structure Request where
  scene : JInt
  action : JLong
  callerTid : JInt
  timeStamp : JInt

structure Sys where
  /-- the last reading of the clock -/
  clock : Int
  task : Nat → PerformanceTask
  /-- the number of tasks made so far -/
  made : Nat
  taskQueue : List Queued
  /-- the tasks that the loop has taken from the queue -/
  taken : List Nat
  listStartTask : List Nat
  setStartedTask : List JInt
  setStopTask : List JInt
  nextWakeInterval : Int
  curr : Resource → Option Nat
  currBindCore : List Nat
  device : Device

def DEFAULT_WAKE_INTERVAL : Int := 30 * 1000

def init (clock : Int) : Sys where
  clock := clock
  task := fun _ => ⟨0, 0, 0, [], 0, 0, 0, 0, 0⟩
  made := 0
  taskQueue := []
  taken := []
  listStartTask := []
  setStartedTask := []
  setStopTask := []
  nextWakeInterval := DEFAULT_WAKE_INTERVAL
  curr := fun _ => none
  currBindCore := []
  device := ⟨fun _ => 0, []⟩

/-- `HashSet.add` and `HashMap.put` -/
def add (set : List JInt) (hashCode : JInt) : List JInt :=
  if set.contains hashCode then set else set ++ [hashCode]

def remove (set : List JInt) (hashCode : JInt) : List JInt := set.filter (· ≠ hashCode)

def isParamsValid (c : StartCall) : Bool :=
  ¬ (c.delay.toInt < 0 ∨ c.cpuLevel.toInt < 0 ∨ c.gpuLevel.toInt < 0 ∨ c.ioLevel.toInt < 0 ∨
    c.bindTids = none ∨ c.timeout.toInt ≤ 0)

namespace Sys

/-- `start`, when the clock reads `initTime`. -/
def start (s : Sys) (c : StartCall) (initTime : Int) : Sys :=
  let s := { s with clock := initTime }
  if isParamsValid c = false ∨
      (c.cpuLevel = 0 ∧ c.ioLevel = 0 ∧ c.gpuLevel = 0 ∧ c.bindTids = some [0]) then s
  else
    let startTime := initTime + c.delay.toInt
    { s with
      made := s.made + 1
      task := Function.update s.task s.made ⟨c.cpuLevel, c.gpuLevel, c.ioLevel, c.bindTids.getD [],
        c.scene, c.action, c.callerTid, startTime, startTime + c.timeout.toInt⟩
      taskQueue := s.taskQueue ++ [.start s.made] }

def stop (s : Sys) (hashCode : JInt) : Sys :=
  if hashCode ≠ 0 then { s with taskQueue := s.taskQueue ++ [.stop hashCode] } else s

end Sys

section Loop
variable (vm : Machine)

/-- One `poll`. -/
def Sys.poll (s : Sys) : Queued → Sys
  | .start task =>
    { s with
      taken := s.taken ++ [task]
      listStartTask := s.listStartTask ++ [task]
      setStartedTask := add s.setStartedTask (vm.hashCode task) }
  | .stop hashCode =>
    if s.setStartedTask.contains hashCode then { s with setStopTask := add s.setStopTask hashCode } else s

/-- The pass begins. -/
def Sys.scan (s : Sys) : Scan where
  task := s.task
  listStartTask := []
  setStartedTask := s.setStartedTask
  setStopTask := s.setStopTask
  nextWakeInterval := DEFAULT_WAKE_INTERVAL
  max := fun _ => none
  needBindCore := []

namespace Scan
variable (now : Int)

def stopTask (z : Scan) (task : Nat) : Scan :=
  if z.setStopTask.contains (vm.hashCode task) then
    { z with
      task := Function.update z.task task { z.task task with stopTime := now }
      setStopTask := remove z.setStopTask (vm.hashCode task) }
  else z

/-- The task is better than the one that has been best so far: a lower level is more, and
of two tasks of one level the one that lasts longer is taken. -/
def better (z : Scan) (task : Nat) (r : Resource) : Option Nat → Bool
  | none => true
  | some m => ((z.task task).level r).toInt < ((z.task m).level r).toInt ∨
      ((z.task m).level r = (z.task task).level r ∧ (z.task m).stopTime < (z.task task).stopTime)

/-- The task is running. -/
def runTask (z : Scan) (task : Nat) : Scan :=
  { z with
    max := fun r =>
      if 0 < ((z.task task).level r).toInt ∧ z.better task r (z.max r) then some task else z.max r
    needBindCore :=
      if (z.task task).binds ∧ task ∉ z.needBindCore then z.needBindCore ++ [task]
      else z.needBindCore }

/-- One pass of the loop over `listStartTask`; a task that has stopped leaves the list. -/
def next (z : Scan) (task : Nat) : Scan :=
  let z := z.stopTask vm now task
  let lifeLeftInterval := (z.task task).stopTime - now
  if lifeLeftInterval ≤ 0 then
    { z with setStartedTask := remove z.setStartedTask (vm.hashCode task) }
  else
    let z := { z with
      listStartTask := z.listStartTask ++ [task]
      nextWakeInterval := min z.nextWakeInterval lifeLeftInterval }
    let waitStartInterval := (z.task task).startTime - now
    if 0 < waitStartInterval then
      { z with nextWakeInterval := min z.nextWakeInterval waitStartInterval }
    else z.runTask task

end Scan

/-- An array of the given length, filled from the front. -/
def filled (length : Nat) (tids : List JInt) : List JInt :=
  tids ++ List.replicate (length - tids.length) 0

section Requests
variable (task : Nat → PerformanceTask) (now : Int)

def tidCount (set : List Nat) : Nat := (set.map fun t => (task t).bindTids.length).sum

/-- The threads of the tasks that are no longer bound; nothing when an assertion fails. -/
def cancelTids : List Nat → Option (List JInt)
  | [] => some []
  | t :: ts =>
    if now < (task t).stopTime then cancelTids ts
    else if (task t).isNeedBindTids = false then none
    else (cancelTids ts).map ((task t).bindTids ++ ·)

def Request.add (q : Request) (t : Nat) : Request :=
  ⟨(task t).scene, (task t).action, (task t).callerTid,
    jmin (BitVec.ofInt 32 ((task t).stopTime - now)) q.timeStamp⟩

/-- The threads of the tasks that are bound, and what these leave in the request. -/
def requestTids : Request → List Nat → Option (Request × List JInt)
  | q, [] => some (q, [])
  | q, t :: ts =>
    if (task t).stopTime ≤ now then requestTids q ts
    else if (task t).isNeedBindTids = false then none
    else (requestTids (q.add task now t) ts).map fun r => (r.1, (task t).bindTids ++ r.2)

/-- The cancel call for a level that no task asks for any more. -/
def cancelLevel (curr max : Option Nat) (r : Resource) : List NativeCall :=
  match max, curr with
  | none, some t => [.cancelHighFreq r (task t).callerTid]
  | _, _ => []

def Request.addLevel (q : Request) (max : Option Nat) : Request :=
  match max with
  | none => q
  | some t => q.add task now t

def reqLevel (max : Option Nat) (r : Resource) : JInt :=
  match max with
  | none => 0
  | some t => (task t).level r

/-- The assertions before the request. -/
def asserted (q : Request) (level : Resource → JInt) (tidList : List JInt) : Bool :=
  0 < q.timeStamp.toInt ∧ (0 < q.scene.toInt ∨ 0 < q.action.toInt) ∧ 0 < q.callerTid.toInt ∧
    (0 < (level .cpu).toInt ∨ 0 < (level .gpu).toInt ∨ 0 < (level .io).toInt ∨ 0 < tidList.length)

def unifyRequest (q : Request) (level : Resource → JInt) (tidList : List JInt) :
    Option (List NativeCall) :=
  if q.timeStamp.toInt < MAX_VALUE.toInt then
    if asserted q level tidList then
      some [.requestUnifyCpuIOThreadCoreGpu q.scene q.action level tidList q.timeStamp q.callerTid]
    else none
  else some []

end Requests

/-- Nothing has changed since the last pass. -/
def unchanged (s : Sys) (z : Scan) (stopSet : List Nat) : Bool :=
  z.max .cpu = s.curr .cpu ∧ z.max .gpu = s.curr .gpu ∧ z.max .io = s.curr .io ∧
    s.currBindCore.length = z.needBindCore.length ∧ stopSet = []

def cancelBindCore (now : Int) (task : Nat → PerformanceTask) (stopSet : List Nat) :
    Option (List NativeCall) :=
  let cancelTidCount := tidCount task stopSet
  if 0 < cancelTidCount then
    (cancelTids task now (vm.iterator stopSet)).map fun tids =>
      [.cancelCpuCoreForThread (filled cancelTidCount tids)]
  else some []

def request (now : Int) (z : Scan) : Option (List NativeCall) :=
  (requestTids z.task now ⟨0, 0, 0, MAX_VALUE⟩ (vm.iterator z.needBindCore)).bind fun r =>
    let q := r.1.addLevel z.task now (z.max .io)
    let q := q.addLevel z.task now (z.max .gpu)
    let q := q.addLevel z.task now (z.max .cpu)
    unifyRequest q (fun r => reqLevel z.task (z.max r) r)
      (filled (tidCount z.task z.needBindCore) r.2)

def cancelLevels (s : Sys) (z : Scan) : List NativeCall :=
  cancelLevel z.task (s.curr .io) (z.max .io) .io ++
    cancelLevel z.task (s.curr .gpu) (z.max .gpu) .gpu ++
    cancelLevel z.task (s.curr .cpu) (z.max .cpu) .cpu

/-- The native calls of a pass; nothing when an assertion fails. -/
def calls (now : Int) (s : Sys) (z : Scan) : Option (List NativeCall) :=
  let stopSet := s.currBindCore.filter fun t => t ∉ z.needBindCore
  if unchanged s z stopSet then some []
  else
    (cancelBindCore vm now z.task stopSet).bind fun cancelled =>
      (request vm now z).map fun request => cancelled ++ cancelLevels s z ++ request

/-- The pass at the given time, when the loop has taken what it does from the queue. -/
def Sys.scanned (s : Sys) (now : Int) : Scan := s.listStartTask.foldl (Scan.next vm now) s.scan

/-- What the pass remembers, when it has made its calls. -/
def Sys.finish (s : Sys) (now : Int) (z : Scan) (cs : List NativeCall) : Sys :=
  { s with
    clock := now
    task := z.task
    listStartTask := z.listStartTask
    setStartedTask := z.setStartedTask
    setStopTask := z.setStopTask
    nextWakeInterval := z.nextWakeInterval
    curr := z.max
    currBindCore := z.needBindCore
    device := cs.foldl Device.apply s.device }

/-- The body of the loop after the polls; nothing when it ends in a failed assertion. -/
def Sys.endLoop (s : Sys) (now : Int) : Option Sys :=
  (calls vm now s (s.scanned vm now)).map (s.finish now (s.scanned vm now))

end Loop

inductive Action where
  | start (c : StartCall) (initTime : Int)
  | stop (hashCode : JInt)
  /-- the loop takes up to so many elements from the queue, and makes its pass -/
  | loop (polled : Nat) (now : Int)

/-- The loop takes elements from the queue, until it is empty. -/
def Sys.taking (vm : Machine) (s : Sys) : Nat → Sys
  | 0 => s
  | polled + 1 =>
    match s.taskQueue with
    | [] => s
    | q :: taskQueue => ({ s with taskQueue := taskQueue }.poll vm q).taking vm polled

def step (vm : Machine) (s : Sys) : Action → Option Sys
  | .start c initTime => if s.clock ≤ initTime then some (s.start c initTime) else none
  | .stop hashCode => some (s.stop hashCode)
  | .loop polled now => if s.clock ≤ now then (s.taking vm polled).endLoop vm now else none

end HCPerfManager
end Hardcoder
