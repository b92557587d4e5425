import Mathlib.Logic.Function.Basic
import Hardcoder.Lib.Runs
import Hardcoder.ClientCallback

/-! The engines of `Client` (client.h): when they are made, installed and deleted, and
when their loop threads run. Engines are numbered in the order they are made; a thread
is known by its engine, and `running` is the engine's `m_runningFlag`. -/

namespace Hardcoder
open Runs
set_option autoImplicit false

def ERR_CLIENT_CONNECT : JInt := -20000
def ERR_CLIENT_DISCONNECT : JInt := -20001
def ERR_CLIENT_ALREADY_INIT : JInt := -20002

/-- What `start` returns, and whether it has started the loop thread. -/
structure Start where
  ret : JInt
  thread : Bool

/-- `socket` is what `createSocket` returns. -/
def UdpClient.start (socket : JInt) : Start := ⟨0, decide (0 < socket.toInt)⟩

def LocalsocketClient.start (socket : JInt) : Start := ⟨socket, decide (0 < socket.toInt)⟩

namespace Client

/-- `m_remote`: the part of the path before the first `|`. -/
def getSocketName (remote : Option StdString) : StdString :=
  (remote.getD []).takeWhile fun c => c != 124

/-- When the thread of a new engine ends, if it does so before `tryStartEngine` returns. -/
inductive Ends where
  | later
  /-- before `tryStartEngine` reads `isRunning` -/
  | beforeCheck
  /-- before the callback of `ERR_CLIENT_CONNECT` -/
  | beforeCallback
deriving DecidableEq

/-- What an attempt to connect meets with. -/
structure Outcome where
  /-- `getMillisecond` -/
  curr : Int
  socket : JInt
  ends : Ends
deriving DecidableEq

/-- What an attempt comes to: the engine whose thread it starts, the engine installed
when it returns, and its return value. -/
structure Attempt where
  started : Option Nat
  installed : Option Nat
  ret : Int
deriving DecidableEq

/-- A call of `m_pC2JavaCallback`, and whether the installed engine was running then. -/
structure Callback where
  info : C2JavaCall
  running : Bool
deriving DecidableEq

structure Sys where
  m_pC2JavaCallback : Bool
  m_pClientEngine : Option Nat
  m_enable : JInt
  m_retryConnectInterval : JInt
  m_remote : StdString
  m_port : JInt
  m_local : StdString
  m_lastConnect : Int
  running : Nat → Bool
  /-- the number of engines made so far -/
  made : Nat
  /-- for each engine deleted, whether its thread was still running -/
  deletions : List Bool
  attempts : List Attempt
  /-- the flag of a `setEnable` that has not returned -/
  enabling : Option JInt
  /-- what the callback thread has not yet popped -/
  queue : List Callback
  /-- the statuses that the client itself has reported -/
  reported : List Callback
  /-- `tryStartEngine` has returned 0, and no disconnect has been reported since -/
  up : Bool
  /-- `HardCoderJNI.connect` -/
  connect : Bool

def init : Sys where
  m_pC2JavaCallback := false
  m_pClientEngine := none
  m_enable := 1
  m_retryConnectInterval := 30
  m_remote := []
  m_port := 0
  m_local := []
  m_lastConnect := 0
  running := fun _ => false
  made := 0
  deletions := []
  attempts := []
  enabling := none
  queue := []
  reported := []
  up := false
  connect := false

/-- A status of the client itself. -/
def status (errCode : JInt) : C2JavaCall := ⟨CALLBACK_TYPE_STATUS, 0, 0, errCode, 0, 0, none, 0⟩

namespace Sys

def isRunning (s : Sys) : Bool := s.m_pClientEngine.any s.running

def callback (s : Sys) (errCode : JInt) : Sys :=
  { s with
    queue := s.queue ++ [⟨status errCode, s.isRunning⟩]
    reported := s.reported ++ [⟨status errCode, s.isRunning⟩] }

def threadEnds (s : Sys) (e : Nat) : Sys :=
  { s with running := Function.update s.running e false }

def delete (s : Sys) (e : Nat) : Sys := { s with deletions := s.deletions ++ [s.running e] }

/-- `new` and `start`, up to the check of `isRunning`. -/
def start (s : Sys) (o : Outcome) (r : Start) : Sys :=
  { s with
    made := s.made + 1
    running := Function.update s.running s.made (r.thread && o.ends != .beforeCheck) }

/-- The part of `tryStartEngine` that makes and starts the new engine. -/
def newEngine (s : Sys) (o : Outcome) : Sys × Int :=
  let r := if s.m_port ≠ 0 then UdpClient.start o.socket else LocalsocketClient.start o.socket
  let started := if r.thread then some s.made else none
  let s := s.start o r
  let pEngine := s.made - 1
  if 0 < r.ret.toInt ∧ s.running pEngine = true then
    let s := { s with
      m_pClientEngine := some pEngine
      attempts := s.attempts ++ [⟨started, some pEngine, 0⟩]
      up := true }
    if s.m_port ≠ 0 then (s, 0)
    else if o.ends = .beforeCallback then ((s.threadEnds pEngine).callback ERR_CLIENT_CONNECT, 0)
    else (s.callback ERR_CLIENT_CONNECT, 0)
  else
    ({ s.delete pEngine with attempts := s.attempts ++ [⟨started, s.m_pClientEngine, -3⟩] }, -3)

def tryStartEngine (s : Sys) (o : Outcome) : Sys × Int :=
  if s.m_remote = [] ∨ (s.m_port.toInt ≤ 0 ∧ s.m_local = []) then (s, -1)
  else if s.isRunning = true then (s, -2)
  else if o.curr - s.m_lastConnect < s.m_retryConnectInterval.toInt * 1000 then (s, -3)
  else
    let s := { s with m_lastConnect := o.curr }
    match s.m_pClientEngine with
    | some e => { s.delete e with m_pClientEngine := none }.newEngine o
    | none => s.newEngine o

/-- `init` up to `tryStartEngine`. -/
def configure (s : Sys) (remote : Option StdString) (port : JInt) (localpath : Option StdString) :
    Sys :=
  { s with
    m_pC2JavaCallback := true
    m_remote := getSocketName remote
    m_local := localpath.getD []
    m_port := port }

def init (s : Sys) (remote : Option StdString) (port : JInt) (localpath : Option StdString)
    (o : Outcome) : Sys :=
  if s.m_pClientEngine.isSome then s.callback ERR_CLIENT_ALREADY_INIT
  else ((s.configure remote port localpath).tryStartEngine o).1

/-- The disconnect status, when there is someone to tell. -/
def disconnected (s : Sys) : Sys :=
  if s.m_pC2JavaCallback then { s.callback ERR_CLIENT_DISCONNECT with up := false } else s

def engine (s : Sys) (o : Outcome) : Sys × Option Nat :=
  if s.m_enable = 0 then (s, none)
  else if s.isRunning = true then (s, s.m_pClientEngine)
  else
    let (s, ret) := s.disconnected.tryStartEngine o
    if ret = 0 then (s, s.m_pClientEngine) else (s, none)

/-- `setEnable` up to the assignment of `m_enable`. -/
def setEnable (s : Sys) (enableFlag : JInt) (o : Outcome) : Sys :=
  let s' := if s.m_enable = 0 ∧ enableFlag ≠ 0 then (s.tryStartEngine o).1 else s
  { s' with enabling := some enableFlag }

def setRetryConnectInterval (s : Sys) (retryConnectInterval : JInt) : Sys :=
  if 0 < retryConnectInterval.toInt then { s with m_retryConnectInterval := retryConnectInterval }
  else s

/-- The callback thread pops a message; what it is leads to `onData` only if the client is
enabled. -/
def callbackThread (s : Sys) (info : C2JavaCall) (queue : List Callback) : Sys :=
  { s with
    queue := queue
    connect := if s.m_enable ≠ 0 then HardCoderJNI.connected s.connect info else s.connect }

end Sys

inductive Action where
  | init (remote : Option StdString) (port : JInt) (localpath : Option StdString) (o : Outcome)
  /-- a request, before it is sent -/
  | engine (o : Outcome)
  | setEnable (enableFlag : JInt) (o : Outcome)
  /-- `setEnable` assigns `m_enable` and returns -/
  | enabled
  | setRetryConnectInterval (retryConnectInterval : JInt)
  | threadEnds (e : Nat)
  /-- `onCallback` of an engine: a response or an event, not a status of the client -/
  | callback (info : C2JavaCall)
  | callbackThread

def step (s : Sys) : Action → Option Sys
  | .init remote port localpath o => some (s.init remote port localpath o)
  | .engine o => some (s.engine o).1
  | .setEnable enableFlag o =>
    if s.enabling = none then some (s.setEnable enableFlag o) else none
  | .enabled => s.enabling.map fun enableFlag => { s with m_enable := enableFlag, enabling := none }
  | .setRetryConnectInterval retryConnectInterval =>
    some (s.setRetryConnectInterval retryConnectInterval)
  | .threadEnds e => if s.running e = true then some (s.threadEnds e) else none
  | .callback info =>
    if info.callbackType = CALLBACK_TYPE_STATUS ∧ info.funcid = HardCoderJNI.FUNC_LOCAL then none
    else some { s with queue := s.queue ++ [⟨info, s.isRunning⟩] }
  | .callbackThread =>
    match s.queue with
    | [] => none
    | m :: queue => some (s.callbackThread m.info queue)

/-- No engine has been deleted while its thread was running, at most one thread is running,
and an attempt that has started a thread has installed its engine and returned 0. -/
structure Good (s : Sys) : Prop where
  deleted : ∀ d ∈ s.deletions, d = false
  single : ∀ i j, s.running i = true → s.running j = true → i = j
  attempts : ∀ t ∈ s.attempts, ∀ e, t.started = some e → t.installed = some e ∧ t.ret = 0

/-- `tryStartEngine` gets to making an engine. -/
structure Sys.Connects (s : Sys) (o : Outcome) : Prop where
  params : ¬ (s.m_remote = [] ∨ (s.m_port.toInt ≤ 0 ∧ s.m_local = []))
  stopped : ¬ s.isRunning = true
  interval : ¬ o.curr - s.m_lastConnect < s.m_retryConnectInterval.toInt * 1000

/-- A thread that `tryStartEngine` starts is that of a local socket, and it is still running
when `isRunning` is read. -/
def Sys.Safe (s : Sys) (o : Outcome) : Prop :=
  s.Connects o → 0 < o.socket.toInt → s.m_port = 0 ∧ o.ends ≠ .beforeCheck

def Keeps (s : Sys) (a : Action) : Prop := ∀ s', step s a = some s' → Good s'

def SafeAt (s : Sys) : Action → Prop
  | .init remote port localpath o =>
    s.m_pClientEngine = none → (s.configure remote port localpath).Safe o
  | .engine o => s.m_enable ≠ 0 → s.isRunning = false → s.Safe o
  | .setEnable enableFlag o => s.enabling = none → s.m_enable = 0 → enableFlag ≠ 0 → s.Safe o
  | _ => True

section Engines
variable {s s' : Sys} {o : Outcome}

namespace Sys

theorem newEngine_failed (h : ¬ (0 < o.socket.toInt ∧ s.m_port = 0 ∧ o.ends ≠ .beforeCheck)) :
    s.newEngine o = ({ s with
      made := s.made + 1
      running := Function.update s.running s.made
        (decide (0 < o.socket.toInt) && o.ends != .beforeCheck)
      deletions := s.deletions ++ [decide (0 < o.socket.toInt) && o.ends != .beforeCheck]
      attempts := s.attempts ++
        [⟨if 0 < o.socket.toInt then some s.made else none, s.m_pClientEngine, -3⟩] }, -3) := by
  unfold newEngine start delete
  dsimp only
  by_cases hport : s.m_port ≠ 0
  · rw [if_pos hport, if_neg (by simp [UdpClient.start])]
    simp [UdpClient.start]
  · rw [if_neg hport]
    by_cases hsocket : 0 < o.socket.toInt
    · have hends : o.ends = .beforeCheck := by_contra fun hne => h ⟨hsocket, not_not.mp hport, hne⟩
      simp [hends, hsocket, LocalsocketClient.start]
    · simp [hsocket, LocalsocketClient.start]

theorem newEngine_installed (hsocket : 0 < o.socket.toInt) (hport : s.m_port = 0)
    (hends : o.ends ≠ .beforeCheck) :
    s.newEngine o = ({ s with
      made := s.made + 1
      running := Function.update s.running s.made (o.ends != .beforeCallback)
      m_pClientEngine := some s.made
      attempts := s.attempts ++ [⟨some s.made, some s.made, 0⟩]
      queue := s.queue ++ [⟨status ERR_CLIENT_CONNECT, o.ends != .beforeCallback⟩]
      reported := s.reported ++ [⟨status ERR_CLIENT_CONNECT, o.ends != .beforeCallback⟩]
      up := true }, 0) := by
  unfold newEngine start callback threadEnds isRunning
  cases hmoment : o.ends with
  | beforeCheck => exact absurd hmoment hends
  | later =>
    have hrunning : (Ends.later != .beforeCheck) = (Ends.later != .beforeCallback) := rfl
    simp [hport, hsocket, hrunning, LocalsocketClient.start]
  | beforeCallback => simp [hport, hsocket, LocalsocketClient.start]

/-- What `tryStartEngine` does before it makes the new engine. -/
def disposed (s : Sys) (curr : Int) : Sys :=
  { s with
    m_lastConnect := curr
    m_pClientEngine := none
    deletions := s.deletions ++ s.m_pClientEngine.toList.map s.running }

theorem tryStartEngine_connects (h : s.Connects o) :
    s.tryStartEngine o = (s.disposed o.curr).newEngine o := by
  rw [tryStartEngine, if_neg h.params, if_neg h.stopped, if_neg h.interval]
  cases hengine : s.m_pClientEngine with
  | none => simp [disposed, hengine]
  | some e => simp [disposed, hengine, delete]

theorem tryStartEngine_refused (h : ¬ s.Connects o) :
    ∃ ret, ret ≠ 0 ∧ s.tryStartEngine o = (s, ret) := by
  unfold tryStartEngine
  split
  · exact ⟨-1, by decide, rfl⟩
  split
  · exact ⟨-2, by decide, rfl⟩
  split
  · exact ⟨-3, by decide, rfl⟩
  · exact absurd ⟨‹_›, ‹_›, ‹_›⟩ h

theorem disconnected_m_port (s : Sys) : s.disconnected.m_port = s.m_port := by
  unfold disconnected
  split <;> rfl

theorem connects_disconnected : s.disconnected.Connects o ↔ s.Connects o := by
  unfold disconnected
  split
  · exact ⟨fun hc => ⟨hc.params, hc.stopped, hc.interval⟩,
      fun hc => ⟨hc.params, hc.stopped, hc.interval⟩⟩
  · exact Iff.rfl

theorem safe_disconnected : s.disconnected.Safe o ↔ s.Safe o := by
  unfold Safe
  rw [connects_disconnected, disconnected_m_port]

theorem engine_fst (henable : s.m_enable ≠ 0) (hstopped : s.isRunning = false) :
    (s.engine o).1 = (s.disconnected.tryStartEngine o).1 := by
  have hrunning : ¬ s.isRunning = true := Bool.eq_false_iff.mp hstopped
  rw [engine, if_neg henable, if_neg hrunning]
  dsimp only
  split <;> rfl

end Sys

theorem step_callbackThread (h : step s .callbackThread = some s') :
    ∃ m queue, s.queue = m :: queue ∧ s' = s.callbackThread m.info queue := by
  cases hqueue : s.queue with
  | nil =>
    simp only [step, hqueue] at h
    cases h
  | cons m queue =>
    simp only [step, hqueue] at h
    exact ⟨m, queue, rfl, (Option.some.inj h).symm⟩

/-- Only the installed engine can be running. -/
structure Inv (s : Sys) : Prop where
  deleted : ∀ d ∈ s.deletions, d = false
  attempts : ∀ t ∈ s.attempts, ∀ e, t.started = some e → t.installed = some e ∧ t.ret = 0
  installed : ∀ i, s.running i = true → s.m_pClientEngine = some i
  fresh : ∀ i, s.running i = true → i < s.made

theorem inv_init : Inv init where
  deleted := fun _ h => nomatch h
  attempts := fun _ h => nomatch h
  installed := fun _ h => nomatch h
  fresh := fun _ h => nomatch h

namespace Inv

theorem good (h : Inv s) : Good s :=
  ⟨h.deleted, fun i j hi hj => Option.some.inj ((h.installed i hi).symm.trans (h.installed j hj)),
    h.attempts⟩

theorem callback (h : Inv s) (errCode : JInt) : Inv (s.callback errCode) :=
  ⟨h.deleted, h.attempts, h.installed, h.fresh⟩

theorem disconnected (h : Inv s) : Inv s.disconnected := by
  unfold Sys.disconnected
  split
  · exact ⟨h.deleted, h.attempts, h.installed, h.fresh⟩
  · exact h

theorem threadEnds (h : Inv s) (e : Nat) : Inv (s.threadEnds e) := by
  have hrunning {i : Nat} (hi : (s.threadEnds e).running i = true) : s.running i = true := by
    have hupdate : Function.update s.running e false i = true := hi
    by_cases hie : i = e
    · rw [hie, Function.update_self] at hupdate
      cases hupdate
    · rwa [Function.update_of_ne hie] at hupdate
  exact ⟨h.deleted, h.attempts, fun i hi => h.installed i (hrunning hi),
    fun i hi => h.fresh i (hrunning hi)⟩

theorem stopped (h : Inv s) (hc : s.Connects o) (i : Nat) : s.running i = false := by
  rw [← Bool.not_eq_true]
  intro hi
  refine hc.stopped ?_
  rw [Sys.isRunning, h.installed i hi, Option.any_some, hi]

theorem disposed (h : Inv s) (hc : s.Connects o) :
    Inv (s.disposed o.curr) ∧ ∀ i, (s.disposed o.curr).running i = false := by
  have hstopped := h.stopped hc
  refine ⟨⟨fun d hd => ?_, h.attempts, fun i hi => ?_, h.fresh⟩, hstopped⟩
  · rcases List.mem_append.mp hd with hd | hd
    · exact h.deleted d hd
    · obtain ⟨e, -, rfl⟩ := List.mem_map.mp hd
      exact hstopped e
  · exact absurd ((hstopped i).symm.trans hi) Bool.false_ne_true

theorem newEngine (h : Inv s) (hstopped : ∀ i, s.running i = false)
    (hsafe : 0 < o.socket.toInt → s.m_port = 0 ∧ o.ends ≠ .beforeCheck) :
    Inv (s.newEngine o).1 := by
  have hold {b : Bool} {i : Nat} (hi : Function.update s.running s.made b i = true) :
      i = s.made ∧ b = true := by
    by_cases hmade : i = s.made
    · rw [hmade, Function.update_self] at hi
      exact ⟨hmade, hi⟩
    · rw [Function.update_of_ne hmade, hstopped i] at hi
      cases hi
  by_cases hsocket : 0 < o.socket.toInt
  · obtain ⟨hport, hends⟩ := hsafe hsocket
    rw [Sys.newEngine_installed hsocket hport hends]
    refine ⟨h.deleted, fun t ht e he => ?_, fun i hi => ?_, fun i hi => ?_⟩
    · rcases List.mem_append.mp ht with ht | ht
      · exact h.attempts t ht e he
      · obtain rfl := List.mem_singleton.mp ht
        exact ⟨he, rfl⟩
    · exact congrArg some (hold hi).1.symm
    · exact (hold hi).1 ▸ Nat.lt_succ_self _
  · rw [Sys.newEngine_failed fun hinstalled => hsocket hinstalled.1]
    dsimp only
    rw [decide_eq_false hsocket, if_neg hsocket]
    refine ⟨fun d hd => ?_, fun t ht e he => ?_, fun i hi => ?_, fun i hi => ?_⟩
    · rcases List.mem_append.mp hd with hd | hd
      · exact h.deleted d hd
      · exact List.mem_singleton.mp hd
    · rcases List.mem_append.mp ht with ht | ht
      · exact h.attempts t ht e he
      · obtain rfl := List.mem_singleton.mp ht
        cases he
    · cases (hold hi).2
    · cases (hold hi).2

theorem tryStartEngine (h : Inv s) (hsafe : s.Safe o) : Inv (s.tryStartEngine o).1 := by
  by_cases hc : s.Connects o
  · obtain ⟨hdisposed, hstopped⟩ := h.disposed hc
    rw [Sys.tryStartEngine_connects hc]
    exact hdisposed.newEngine hstopped (hsafe hc)
  · obtain ⟨ret, -, hret⟩ := Sys.tryStartEngine_refused hc
    rw [hret]
    exact h

/-- An attempt is safe just when it keeps what is wanted. -/
theorem good_tryStartEngine_iff (h : Inv s) : Good (s.tryStartEngine o).1 ↔ s.Safe o := by
  refine ⟨fun hgood hc hsocket => ?_, fun hsafe => (h.tryStartEngine hsafe).good⟩
  by_contra hunsafe
  rw [Sys.tryStartEngine_connects hc, Sys.newEngine_failed (s := s.disposed o.curr)
    fun hinstalled => hunsafe hinstalled.2] at hgood
  have hlast := hgood.attempts _ (List.mem_append_right _ (List.mem_singleton.mpr rfl)) s.made
    (if_pos hsocket)
  exact absurd (show (-3 : Int) = 0 from hlast.2) (by decide)

theorem configure (h : Inv s) (remote : Option StdString) (port : JInt)
    (localpath : Option StdString) : Inv (s.configure remote port localpath) :=
  ⟨h.deleted, h.attempts, h.installed, h.fresh⟩

theorem step (h : Inv s) {a : Action} (hsafe : SafeAt s a) (hstep : step s a = some s') :
    Inv s' := by
  cases a with
  | init remote port localpath o =>
    obtain rfl := Option.some.inj hstep
    unfold Sys.init
    split
    · exact h.callback _
    · rename_i hnone
      exact (h.configure remote port localpath).tryStartEngine
        (hsafe (Option.not_isSome_iff_eq_none.mp hnone))
  | engine o =>
    obtain rfl := Option.some.inj hstep
    by_cases henable : s.m_enable = 0
    · rw [Sys.engine, if_pos henable]
      exact h
    · cases hrunning : s.isRunning with
      | true =>
        rw [Sys.engine, if_neg henable, if_pos hrunning]
        exact h
      | false =>
        rw [Sys.engine_fst henable hrunning]
        exact h.disconnected.tryStartEngine (Sys.safe_disconnected.mpr (hsafe henable hrunning))
  | setEnable enableFlag o =>
    obtain ⟨henabling, hstep⟩ := Option.ite_none_right_eq_some.mp hstep
    obtain rfl := Option.some.inj hstep
    unfold Sys.setEnable
    split
    · rename_i hrestart
      have hstart := h.tryStartEngine (hsafe henabling hrestart.1 hrestart.2)
      exact ⟨hstart.deleted, hstart.attempts, hstart.installed, hstart.fresh⟩
    · exact ⟨h.deleted, h.attempts, h.installed, h.fresh⟩
  | enabled =>
    obtain ⟨enableFlag, -, rfl⟩ := Option.map_eq_some_iff.mp hstep
    exact ⟨h.deleted, h.attempts, h.installed, h.fresh⟩
  | setRetryConnectInterval retryConnectInterval =>
    obtain rfl := Option.some.inj hstep
    unfold Sys.setRetryConnectInterval
    split
    · exact ⟨h.deleted, h.attempts, h.installed, h.fresh⟩
    · exact h
  | threadEnds e =>
    obtain ⟨-, hstep⟩ := Option.ite_none_right_eq_some.mp hstep
    obtain rfl := Option.some.inj hstep
    exact h.threadEnds e
  | callback info =>
    obtain ⟨-, hstep⟩ := Option.ite_none_left_eq_some.mp hstep
    obtain rfl := Option.some.inj hstep
    exact ⟨h.deleted, h.attempts, h.installed, h.fresh⟩
  | callbackThread =>
    obtain ⟨m, queue, -, rfl⟩ := step_callbackThread hstep
    exact ⟨h.deleted, h.attempts, h.installed, h.fresh⟩

theorem safeAt_iff_keeps (h : Inv s) {a : Action} : SafeAt s a ↔ Keeps s a := by
  refine ⟨fun hsafe s' hstep => (h.step hsafe hstep).good, fun hkeeps => ?_⟩
  cases a with
  | init remote port localpath o =>
    intro hnone
    have hgood := hkeeps _ rfl
    rw [Sys.init, if_neg (by rw [hnone]; exact Bool.false_ne_true)] at hgood
    exact (h.configure remote port localpath).good_tryStartEngine_iff.mp hgood
  | engine o =>
    intro henable hrunning
    have hgood := hkeeps _ rfl
    rw [Sys.engine_fst henable hrunning] at hgood
    exact Sys.safe_disconnected.mp (h.disconnected.good_tryStartEngine_iff.mp hgood)
  | setEnable enableFlag o =>
    intro henabling henable hflag
    have hgood := hkeeps _ (if_pos henabling)
    rw [Sys.setEnable, if_pos ⟨henable, hflag⟩] at hgood
    exact h.good_tryStartEngine_iff.mp ⟨hgood.deleted, hgood.single, hgood.attempts⟩
  | enabled | setRetryConnectInterval | threadEnds | callback | callbackThread => trivial

end Inv

/-- In a run the engines stay as they should be just when every thread that is started is
that of a local socket which lasts until `isRunning` is read. -/
theorem engineLifecycle_iff_safe (as : List Action) :
    Along step Keeps init as ↔ Along step SafeAt init as :=
  (along_congr (fun hs hsafe hstep => hs.step hsafe hstep) (fun hs => hs.safeAt_iff_keeps)
    inv_init).symm

end Engines

/-- `initHardCoder` with a UDP port. The socket is 9. -/
def udpInit : Action := .init (some [104]) 8080 none ⟨30000, 9, .later⟩

/-- Over UDP the engine is deleted as soon as its thread runs, and the client has none. -/
theorem engineLifecycle_udp : ∃ s, run step init [udpInit] = some s ∧
    s.running 0 = true ∧ s.deletions = [true] ∧ s.m_pClientEngine = none ∧
      s.attempts = [⟨some 0, none, -3⟩] ∧ ¬ Good s := by
  have hrun : (run step init [udpInit]).map (fun s => (s.running 0, s.deletions,
      s.m_pClientEngine, s.attempts)) = some (true, [true], none, [⟨some 0, none, -3⟩]) := by
    decide +kernel
  obtain ⟨s, hs, hstate⟩ := Option.map_eq_some_iff.mp hrun
  simp only [Prod.mk.injEq] at hstate
  obtain ⟨hrunning, hdeletions, hengine, hattempts⟩ := hstate
  refine ⟨s, hs, hrunning, hdeletions, hengine, hattempts, fun h => ?_⟩
  exact Bool.noConfusion (h.deleted true (by rw [hdeletions]; exact List.mem_singleton.mpr rfl))

end Client
end Hardcoder
