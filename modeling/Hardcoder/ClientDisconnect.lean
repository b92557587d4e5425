import Hardcoder.RequestFidelity
import Hardcoder.SendQueue

/-! The engine of a local-socket client from `start` on: the thread in `loop(0)`, with the
send queue as before and `select`, `recv` and `uninit` step by step, and the threads that
call `sendReq`. An engine is started once; another connection is another engine. -/

namespace Hardcoder
open Runs
set_option autoImplicit false

namespace LocalSocket
variable {s s' : Sys}

theorem step_m_fd {a : Action} (h : step s a = some s') : s'.m_fd = s.m_fd := by
  cases a with
  | sendData p fd data =>
    simp only [step, Sys.sendData] at h
    split at h
    · obtain rfl := Option.some.inj h
      rfl
    split at h
    · cases h
    · obtain rfl := Option.some.inj h
      rfl
  | push p =>
    simp only [step, Sys.push] at h
    split at h
    · obtain ⟨sendPack, -, rfl⟩ := Option.map_eq_some_iff.mp h
      rfl
    · cases h
  | front =>
    obtain ⟨-, h⟩ := Option.ite_none_right_eq_some.mp h
    obtain rfl := Option.some.inj h
    unfold Sys.front
    split
    · rfl
    · split <;> rfl
  | send canWrite ret =>
    simp only [step] at h
    split at h
    · obtain ⟨sendPack, -, h⟩ := Option.bind_eq_some_iff.mp h
      unfold Sys.send at h
      dsimp only at h
      split at h
      · obtain rfl := Option.some.inj h
        rfl
      split at h
      · obtain rfl := Option.some.inj h
        rfl
      split at h
      · cases h
      · obtain rfl := Option.some.inj h
        rfl
    · cases h
  | pop =>
    have hpop {p : Ptr} {pc : Pc} (h : s.pop p pc = some s') : s'.m_fd = s.m_fd := by
      unfold Sys.pop at h
      split at h
      · cases h
      · obtain rfl := Option.some.inj h
        rfl
    simp only [step] at h
    split at h
    · exact hpop h
    · exact hpop h
    · cases h
  | select =>
    obtain ⟨-, h⟩ := Option.ite_none_right_eq_some.mp h
    obtain rfl := Option.some.inj h
    rfl

/-- The threads that send do not move the one in `loop`. -/
theorem sendData_pc {p : Ptr} {fd : Fd} {data : List UInt8}
    (h : step s (.sendData p fd data) = some s') : s'.pc = s.pc := by
  simp only [step, Sys.sendData] at h
  split at h
  · obtain rfl := Option.some.inj h
    rfl
  split at h
  · cases h
  · obtain rfl := Option.some.inj h
    rfl

theorem push_pc {p : Ptr} (h : step s (.push p) = some s') : s'.pc = s.pc := by
  simp only [step, Sys.push] at h
  split at h
  · obtain ⟨sendPack, -, rfl⟩ := Option.map_eq_some_iff.mp h
    rfl
  · cases h

theorem ne_left_of_step {a : Action} (h : step s a = some s')
    (ha : a = .front ∨ (∃ canWrite ret, a = .send canWrite ret) ∨ a = .pop ∨ a = .select) :
    s.pc ≠ .left := by
  intro hpc
  rcases ha with rfl | ⟨canWrite, ret, rfl⟩ | rfl | rfl <;>
    simp [step, hpc] at h

/-- Wherever it is before it leaves, the thread in `loop` can take a step that does not make
it leave. -/
theorem progress (h : Inv s) (hfd : s.m_fd ≠ 0) :
    (s.pc = .top → ∃ t, step s .front = some t ∧ t.pc ≠ .left) ∧
    (∀ p, s.pc = .front p → ∃ t, step s (.send false 0) = some t ∧ t.pc = .select) ∧
    (∀ p, s.pc = .sent p → ∃ t, step s .pop = some t ∧ t.pc = .select) ∧
    (∀ p, s.pc = .failed p → ∃ t, step s .pop = some t ∧ t.pc = .top) := by
  refine ⟨fun hpc => ⟨s.front, ?_, ?_⟩, fun p hpc => ?_, fun p hpc => ?_, fun p hpc => ?_⟩
  · rw [step, if_pos hpc]
  · rw [Sys.front, if_neg hfd]
    split <;> exact Pc.noConfusion
  · have hholds : s.pc.sendPack = some p := by rw [hpc]; rfl
    obtain ⟨queue, hqueue, -⟩ := h.queue_cons hholds
    obtain ⟨sendPack, hpack⟩ := Option.ne_none_iff_exists'.mp
      (h.alive p (by rw [hqueue]; exact List.mem_cons_self))
    refine ⟨{ s with pc := .select }, ?_, rfl⟩
    rw [step, hpc]
    dsimp only
    rw [hpack]
    rfl
  · have hholds : s.pc.sendPack = some p := by rw [hpc]; rfl
    obtain ⟨queue, hqueue, -⟩ := h.queue_cons hholds
    rw [step, hpc]
    dsimp only
    rw [Sys.pop, hqueue]
    exact ⟨_, rfl, rfl⟩
  · have hholds : s.pc.sendPack = some p := by rw [hpc]; rfl
    obtain ⟨queue, hqueue, -⟩ := h.queue_cons hholds
    rw [step, hpc]
    dsimp only
    rw [Sys.pop, hqueue]
    exact ⟨_, rfl, rfl⟩

end LocalSocket

namespace ClientLoop
open LocalSocket (Fd Ptr)

/-- The arguments of a `sendReq` call and what it takes from its surroundings. -/
structure ReqCall where
  env : ClientEnv
  funcid : BitVec 32
  data : Option (List UInt8)
  dataLen : JInt
  tid : JInt
  timestamp : JLong

/-- Where `localsocketClientThread` is. -/
inductive Place where
  /-- in the `while` of `loop`, where `LocalSocket.Pc` says, or just behind it -/
  | loop
  /-- the `for` over the descriptors, with the set `select` returned -/
  | scan (i : Fd) (tmpSet : List Fd)
  /-- `loop` has returned -/
  | ended
  /-- the flag is given back -/
  | stopped
deriving DecidableEq, Repr

structure Sys where
  socket : LocalSocket.Sys
  m_pipefd : Fd
  fdset : List Fd
  maxfd : Fd
  m_runningFlag : Int
  place : Place
  /-- `notifyError` has been called for `m_fd` -/
  notified : Bool
  /-- for each `send`, whether that had been before it -/
  sends : List Bool

def init (m_fd m_pipefd : Fd) : Sys where
  socket := LocalSocket.init m_fd
  m_pipefd := m_pipefd
  fdset := [m_fd, m_pipefd]
  maxfd := m_fd
  m_runningFlag := 1
  place := .loop
  notified := false
  sends := []

inductive Action where
  /-- `sendReq`, with the address of its pack -/
  | sendReq (p : Ptr) (c : ReqCall)
  | push (p : Ptr)
  | front
  | send (canWrite : Bool) (ret : Int)
  | pop
  /-- the set `select` returns; `none` on a timeout or an error -/
  | select (tmpSet : Option (List Fd))
  /-- one pass of the `for`, with what `recv` returns if it is called -/
  | scan (ret : Int)
  | uninit
  /-- `__sync_fetch_and_sub(&(p->m_runningFlag), 1)` -/
  | threadEnds

/-- The steps of `localsocketClientThread`. -/
def Action.ofThread : Action → Bool
  | .sendReq .. | .push _ => false
  | _ => true

namespace Sys

def isRunning (s : Sys) : Bool := s.m_runningFlag ≠ 0

/-- What a `sendReq` call comes to. -/
def reply (s : Sys) (c : ReqCall) : SendResult :=
  c.env.sendReq ⟨s.isRunning⟩ c.funcid c.data c.dataLen c.tid c.timestamp

/-- A step of the send queue. -/
def queue (s : Sys) (a : LocalSocket.Action) : Option Sys :=
  (LocalSocket.step s.socket a).map fun socket => { s with socket := socket }

def sendReq (s : Sys) (p : Ptr) (c : ReqCall) : Option Sys :=
  match (s.reply c).packet with
  | none => some s
  | some pack => s.queue (.sendData p s.socket.m_fd pack)

/-- `send`; when it fails on `m_fd`, `notifyError` and the loop is left. -/
def send (s : Sys) (canWrite : Bool) (ret : Int) : Option Sys :=
  (s.queue (.send canWrite ret)).map fun t => { t with
    notified := s.notified || decide (t.socket.pc = .left)
    sends := if canWrite = true then s.sends ++ [s.notified] else s.sends }

/-- The descriptor of the pack a `send` failed on. -/
def failedFd (s : Sys) : Option Fd :=
  match s.socket.pc with
  | .failed p => (s.socket.heap p).map LocalSocket.SendPack.fd
  | _ => none

/-- `pop`, on a server's client with `FD_CLR` -/
def pop (s : Sys) : Option Sys :=
  (s.queue .pop).map fun t => { t with fdset := s.fdset.filter fun fd => s.failedFd ≠ some fd }

def select (s : Sys) (tmpSet : Option (List Fd)) : Option Sys :=
  match tmpSet with
  | none => s.queue .select
  | some tmpSet => if s.socket.pc = .select then some { s with place := .scan 3 tmpSet } else none

/-- Any descriptor but the pipe's is read, with `FD_CLR` and `notifyError` when that fails. -/
def scan (s : Sys) (i : Fd) (tmpSet : List Fd) (ret : Int) : Option Sys :=
  if s.maxfd < i then (s.queue .select).map fun t => { t with place := .loop }
  else if i ∉ tmpSet ∨ i ∉ s.fdset ∨ i = s.m_pipefd ∨ 0 < ret then
    some { s with place := .scan (i + 1) tmpSet }
  else some { s with
    fdset := s.fdset.filter (· ≠ i)
    notified := s.notified || decide (i = s.socket.m_fd)
    place := .scan (i + 1) tmpSet }

def uninit (s : Sys) : Sys :=
  { s with
    socket := { s.socket with
      m_fd := 0
      m_sendQueue := []
      heap := fun p => if p ∈ s.socket.m_sendQueue then none else s.socket.heap p }
    m_pipefd := 0
    place := .ended }

end Sys

def step (s : Sys) : Action → Option Sys
  | .sendReq p c => s.sendReq p c
  | .push p => s.queue (.push p)
  | .front => if s.place = .loop then s.queue .front else none
  | .send canWrite ret => if s.place = .loop then s.send canWrite ret else none
  | .pop => if s.place = .loop then s.pop else none
  | .select tmpSet => if s.place = .loop then s.select tmpSet else none
  | .scan ret =>
    match s.place with
    | .scan i tmpSet => s.scan i tmpSet ret
    | _ => none
  | .uninit => if s.place = .loop ∧ s.socket.pc = .left then some s.uninit else none
  | .threadEnds =>
    if s.place = .ended then
      some { s with m_runningFlag := s.m_runningFlag - 1, place := .stopped }
    else none

/-- The thread takes finitely many more steps, can take them, and the last is behind
`uninit` and gives the flag back. -/
structure Ends (s : Sys) : Prop where
  finishes : Finishes step (fun a => a.ofThread = true) s
  goesOn : ∀ as t, run step s as = some t → t.place ≠ .stopped →
    ∃ a, a.ofThread = true ∧ (step t a).isSome
  closed : ∀ as t, run step s as = some t → t.place = .stopped →
    t.socket.m_fd = 0 ∧ t.m_pipefd = 0 ∧ t.m_runningFlag = 0

/-- From here on `sendReq` sends nothing and returns a negative value. -/
def Refuses (s : Sys) : Prop :=
  ∀ as t, run step s as = some t → ∀ c, (t.reply c).ret < 0 ∧ (t.reply c).packet = none

/-- A disconnect noticed so far is final. -/
structure Final (s : Sys) : Prop where
  quiet : ∀ notified ∈ s.sends, notified = false
  ends : s.notified = true → Ends s
  refuses : s.notified = true → s.m_runningFlag = 0 → Refuses s

def Keeps (s : Sys) (a : Action) : Prop := ∀ s', step s a = some s' → Final s'

/-- `recv` on `m_fd` in this pass of the `for`. -/
def Sys.Receives (s : Sys) : Prop :=
  ∃ tmpSet, s.place = .scan s.socket.m_fd tmpSet ∧ s.socket.m_fd ≤ s.maxfd ∧
    s.socket.m_fd ∈ tmpSet ∧ s.socket.m_fd ∈ s.fdset ∧ s.socket.m_fd ≠ s.m_pipefd

/-- A `recv` on the client's own descriptor returns data. -/
def Received (s : Sys) (a : Action) : Prop := ∀ ret, a = .scan ret → s.Receives → 0 < ret

/-! ### What a step is -/

inductive StepCase (s : Sys) : Action → Sys → Prop where
  | refused (p : Ptr) (c : ReqCall) : StepCase s (.sendReq p c) s
  /-- another thread makes a pack or pushes it -/
  | others {a : Action} {b : LocalSocket.Action} {socket : LocalSocket.Sys} (ha : ¬ a.ofThread = true)
      (hb : LocalSocket.step s.socket b = some socket) (hpc : socket.pc = s.socket.pc) :
      StepCase s a { s with socket := socket }
  /-- `front`, `pop`, and `select` without a descriptor -/
  | queue {a : Action} {b : LocalSocket.Action} {socket : LocalSocket.Sys} (fdset : List Fd)
      (ha : a.ofThread = true) (hplace : s.place = .loop) (hpc : s.socket.pc ≠ .left)
      (hb : LocalSocket.step s.socket b = some socket) :
      StepCase s a { s with socket := socket, fdset := fdset }
  | send {canWrite : Bool} {ret : Int} {socket : LocalSocket.Sys} (hplace : s.place = .loop)
      (hpc : s.socket.pc ≠ .left) (hb : LocalSocket.step s.socket (.send canWrite ret) = some socket) :
      StepCase s (.send canWrite ret) { s with
        socket := socket
        notified := s.notified || decide (socket.pc = .left)
        sends := if canWrite = true then s.sends ++ [s.notified] else s.sends }
  | select (tmpSet : List Fd) (hplace : s.place = .loop) (hpc : s.socket.pc = .select) :
      StepCase s (.select (some tmpSet)) { s with place := .scan 3 tmpSet }
  | scanned {i : Fd} {tmpSet : List Fd} {socket : LocalSocket.Sys} (ret : Int)
      (hplace : s.place = .scan i tmpSet) (hb : LocalSocket.step s.socket .select = some socket) :
      StepCase s (.scan ret) { s with socket := socket, place := .loop }
  | passed {i : Fd} {tmpSet : List Fd} (ret : Int) (hplace : s.place = .scan i tmpSet) :
      StepCase s (.scan ret) { s with place := .scan (i + 1) tmpSet }
  /-- `recv` fails or returns nothing -/
  | closed {i : Fd} {tmpSet : List Fd} {ret : Int} (hplace : s.place = .scan i tmpSet)
      (hi : i ≤ s.maxfd) (htmp : i ∈ tmpSet) (hset : i ∈ s.fdset) (hpipe : i ≠ s.m_pipefd)
      (hret : ¬ 0 < ret) :
      StepCase s (.scan ret) { s with
        fdset := s.fdset.filter (· ≠ i)
        notified := s.notified || decide (i = s.socket.m_fd)
        place := .scan (i + 1) tmpSet }
  | uninit (hplace : s.place = .loop) : StepCase s .uninit s.uninit
  | threadEnds (hplace : s.place = .ended) :
      StepCase s .threadEnds { s with m_runningFlag := s.m_runningFlag - 1, place := .stopped }

theorem scan_cases {s s' : Sys} {i : Fd} {tmpSet : List Fd} {ret : Int} (hplace : s.place = .scan i tmpSet)
    (h : s.scan i tmpSet ret = some s') : StepCase s (.scan ret) s' := by
  unfold Sys.scan at h
  split at h
  · obtain ⟨t, ht, rfl⟩ := Option.map_eq_some_iff.mp h
    obtain ⟨socket, hsocket, rfl⟩ := Option.map_eq_some_iff.mp ht
    exact .scanned ret hplace hsocket
  rename_i hi
  split at h
  · obtain rfl := Option.some.inj h
    exact .passed ret hplace
  · rename_i hread
    simp only [not_or, not_not] at hread
    obtain ⟨htmp, hset, hpipe, hret⟩ := hread
    obtain rfl := Option.some.inj h
    exact .closed hplace (Nat.not_lt.mp hi) htmp hset hpipe hret

theorem step_cases {s s' : Sys} {a : Action} (h : step s a = some s') : StepCase s a s' := by
  cases a with
  | sendReq p c =>
    simp only [step, Sys.sendReq] at h
    split at h
    · obtain rfl := Option.some.inj h
      exact .refused p c
    · obtain ⟨socket, hsocket, rfl⟩ := Option.map_eq_some_iff.mp h
      exact .others Bool.false_ne_true hsocket (LocalSocket.sendData_pc hsocket)
  | push p =>
    obtain ⟨socket, hsocket, rfl⟩ := Option.map_eq_some_iff.mp h
    exact .others Bool.false_ne_true hsocket (LocalSocket.push_pc hsocket)
  | front =>
    obtain ⟨hplace, h⟩ := Option.ite_none_right_eq_some.mp h
    obtain ⟨socket, hsocket, rfl⟩ := Option.map_eq_some_iff.mp h
    exact .queue s.fdset rfl hplace (LocalSocket.ne_left_of_step hsocket (.inl rfl)) hsocket
  | send canWrite ret =>
    obtain ⟨hplace, h⟩ := Option.ite_none_right_eq_some.mp h
    obtain ⟨t, ht, rfl⟩ := Option.map_eq_some_iff.mp h
    obtain ⟨socket, hsocket, rfl⟩ := Option.map_eq_some_iff.mp ht
    have hpc := LocalSocket.ne_left_of_step hsocket (.inr (.inl ⟨canWrite, ret, rfl⟩))
    exact .send hplace hpc hsocket
  | pop =>
    obtain ⟨hplace, h⟩ := Option.ite_none_right_eq_some.mp h
    obtain ⟨t, ht, rfl⟩ := Option.map_eq_some_iff.mp h
    obtain ⟨socket, hsocket, rfl⟩ := Option.map_eq_some_iff.mp ht
    have hpc := LocalSocket.ne_left_of_step hsocket (.inr (.inr (.inl rfl)))
    exact .queue _ rfl hplace hpc hsocket
  | select tmpSet =>
    obtain ⟨hplace, h⟩ := Option.ite_none_right_eq_some.mp h
    cases tmpSet with
    | none =>
      obtain ⟨socket, hsocket, rfl⟩ := Option.map_eq_some_iff.mp h
      have hpc := LocalSocket.ne_left_of_step hsocket (.inr (.inr (.inr rfl)))
      exact .queue s.fdset rfl hplace hpc hsocket
    | some tmpSet =>
      obtain ⟨hpc, h⟩ := Option.ite_none_right_eq_some.mp h
      obtain rfl := Option.some.inj h
      exact .select tmpSet hplace hpc
  | scan ret =>
    simp only [step] at h
    split at h
    · rename_i i tmpSet hplace
      exact scan_cases hplace h
    · cases h
  | uninit =>
    obtain ⟨⟨hplace, -⟩, h⟩ := Option.ite_none_right_eq_some.mp h
    obtain rfl := Option.some.inj h
    exact .uninit hplace
  | threadEnds =>
    obtain ⟨hplace, h⟩ := Option.ite_none_right_eq_some.mp h
    obtain rfl := Option.some.inj h
    exact .threadEnds hplace

/-! ### Every run -/

/-- In the `while`. -/
def Place.inLoop : Place → Bool
  | .loop | .scan .. => true
  | .ended | .stopped => false

def Place.flag : Place → Int
  | .stopped => 0
  | _ => 1

structure Inv (s : Sys) : Prop where
  flag : s.m_runningFlag = s.place.flag
  socket : s.place.inLoop = true → LocalSocket.Inv s.socket ∧ s.socket.m_fd ≠ 0
  scanning : ∀ i tmpSet, s.place = .scan i tmpSet → s.socket.pc = .select
  closed : s.place.inLoop = false → s.socket.m_fd = 0 ∧ s.m_pipefd = 0

theorem inv_init {m_fd m_pipefd : Fd} (h : 0 < m_fd) : Inv (init m_fd m_pipefd) where
  flag := rfl
  socket := fun _ => ⟨LocalSocket.inv_init m_fd, Nat.pos_iff_ne_zero.mp h⟩
  scanning := fun _ _ hscan => by cases hscan
  closed := fun hclosed => by cases hclosed

/-- The thread is on its way out. -/
def Sys.Leaving (s : Sys) : Prop :=
  s.place = .loop ∧ s.socket.pc = .left ∨ s.place.inLoop = false

namespace Inv
variable {s s' : Sys} (h : Inv s)
include h

theorem queue {b : LocalSocket.Action} {socket : LocalSocket.Sys}
    (hb : LocalSocket.step s.socket b = some socket)
    (hpc : ∀ i tmpSet, s.place = .scan i tmpSet → socket.pc = s.socket.pc) :
    Inv { s with socket := socket } := by
  have hfd := LocalSocket.step_m_fd hb
  refine ⟨h.flag, fun hin => ?_, fun i tmpSet hscan => ?_, fun hclosed => ?_⟩
  · obtain ⟨hinv, hne⟩ := h.socket hin
    exact ⟨hinv.step hb, by rwa [← hfd] at hne⟩
  · exact (hpc i tmpSet hscan).trans (h.scanning i tmpSet hscan)
  · obtain ⟨hzero, hpipe⟩ := h.closed hclosed
    exact ⟨hfd.trans hzero, hpipe⟩

/-- What the state gets besides the step of the send queue. -/
theorem congr (hsocket : s'.socket = s.socket) (hpipe : s'.m_pipefd = s.m_pipefd)
    (hflag : s'.m_runningFlag = s.m_runningFlag) (hplace : s'.place = s.place) : Inv s' := by
  refine ⟨?_, fun hin => ?_, fun i tmpSet hscan => ?_, fun hclosed => ?_⟩
  · rw [hflag, hplace]
    exact h.flag
  · rw [hsocket]
    exact h.socket (hplace ▸ hin)
  · rw [hsocket]
    exact h.scanning i tmpSet (hplace ▸ hscan)
  · rw [hsocket, hpipe]
    exact h.closed (hplace ▸ hclosed)

/-- The `for` goes on, or back to the head of the `while`. -/
theorem moved (hin : s.place.inLoop = true) {place : Place} (hplace : place.inLoop = true)
    (hpc : ∀ i tmpSet, place = .scan i tmpSet → s.socket.pc = .select) :
    Inv { s with place := place } := by
  have hflag {place : Place} (h : place.inLoop = true) : place.flag = 1 := by
    cases place with
    | loop | scan => rfl
    | ended | stopped => cases h
  refine ⟨?_, fun _ => h.socket hin, hpc, fun hclosed => ?_⟩
  · exact h.flag.trans ((hflag hin).trans (hflag hplace).symm)
  · rw [hplace] at hclosed
    cases hclosed

theorem step {a : Action} (hs : ClientLoop.step s a = some s') : Inv s' := by
  have hloop {b : LocalSocket.Action} {socket : LocalSocket.Sys} (hplace : s.place = .loop)
      (hb : LocalSocket.step s.socket b = some socket) : Inv { s with socket := socket } :=
    h.queue hb fun i tmpSet hscan => by rw [hplace] at hscan; cases hscan
  have hin {i : Fd} {tmpSet : List Fd} (hplace : s.place = .scan i tmpSet) : s.place.inLoop = true := by
    rw [hplace]
    rfl
  cases step_cases hs with
  | refused p c => exact h
  | others ha hb hpc => exact h.queue hb fun _ _ _ => hpc
  | queue fdset ha hplace hpc hb => exact (hloop hplace hb).congr rfl rfl rfl rfl
  | send hplace hpc hb => exact (hloop hplace hb).congr rfl rfl rfl rfl
  | select tmpSet hplace hpc => exact h.moved (by rw [hplace]; rfl) rfl fun _ _ _ => hpc
  | scanned ret hplace hb =>
    have hmoved : Inv { s with place := .loop } :=
      h.moved (hin hplace) rfl fun _ _ hscan => by cases hscan
    exact hmoved.queue hb fun _ _ hscan => by cases hscan
  | passed ret hplace => exact h.moved (hin hplace) rfl fun _ _ _ => h.scanning _ _ hplace
  | @closed i tmpSet _ hplace =>
    have hmoved : Inv { s with place := .scan (i + 1) tmpSet } :=
      h.moved (hin hplace) rfl fun _ _ _ => h.scanning _ _ hplace
    exact hmoved.congr rfl rfl rfl rfl
  | uninit hplace =>
    refine ⟨?_, fun hin => (by cases hin), fun _ _ hscan => (by cases hscan), fun _ => ⟨rfl, rfl⟩⟩
    have hflag := h.flag
    rw [hplace] at hflag
    exact hflag
  | threadEnds hplace =>
    have hflag := h.flag
    rw [hplace] at hflag
    refine ⟨?_, fun hin => (by cases hin), fun _ _ hscan => (by cases hscan),
      fun _ => h.closed (by rw [hplace]; rfl)⟩
    dsimp only
    rw [hflag]
    rfl

end Inv

/-- What the threads that send do does not move the thread of the engine. -/
theorem step_others {s s' : Sys} {a : Action} (ha : ¬ a.ofThread = true)
    (hs : step s a = some s') : s'.place = s.place ∧ s'.socket.pc = s.socket.pc ∧
      s'.notified = s.notified ∧ s'.sends = s.sends := by
  cases step_cases hs with
  | refused p c => exact ⟨rfl, rfl, rfl, rfl⟩
  | others _ hb hpc => exact ⟨rfl, hpc, rfl, rfl⟩
  | queue fdset hthread => exact absurd hthread ha
  | send | select | scanned | passed | closed | uninit | threadEnds => exact absurd rfl ha

namespace Sys.Leaving
variable {s s' : Sys} (h : s.Leaving)
include h

/-- The thread can only go through `uninit` and then give the flag back. -/
theorem thread {a : Action} (ha : a.ofThread = true) (hs : step s a = some s') :
    (s.place = .loop ∧ s'.place = .ended ∨ s.place = .ended ∧ s'.place = .stopped) ∧
      s'.notified = s.notified ∧ s'.sends = s.sends := by
  have hleft (hplace : s.place = .loop) : s.socket.pc = .left := by
    rcases h with ⟨-, hpc⟩ | hout
    · exact hpc
    · rw [hplace] at hout
      cases hout
  have hscan {i : Fd} {tmpSet : List Fd} : s.place ≠ .scan i tmpSet := by
    intro hplace
    rcases h with ⟨hloop, -⟩ | hout
    · rw [hplace] at hloop
      cases hloop
    · rw [hplace] at hout
      cases hout
  cases step_cases hs with
  | refused => cases ha
  | others hothers => exact absurd ha hothers
  | queue fdset _ hplace hpc => exact absurd (hleft hplace) hpc
  | send hplace hpc => exact absurd (hleft hplace) hpc
  | select tmpSet hplace hpc =>
    rw [hleft hplace] at hpc
    cases hpc
  | scanned ret hplace => exact absurd hplace hscan
  | passed ret hplace => exact absurd hplace hscan
  | closed hplace => exact absurd hplace hscan
  | uninit hplace => exact ⟨.inl ⟨hplace, rfl⟩, rfl, rfl⟩
  | threadEnds hplace => exact ⟨.inr ⟨hplace, rfl⟩, rfl, rfl⟩

theorem step {a : Action} (hs : ClientLoop.step s a = some s') : s'.Leaving := by
  by_cases ha : a.ofThread = true
  · obtain ⟨⟨-, hplace⟩ | ⟨-, hplace⟩, -⟩ := h.thread ha hs
    · exact .inr (by rw [hplace]; rfl)
    · exact .inr (by rw [hplace]; rfl)
  · obtain ⟨hplace, hpc, -⟩ := step_others ha hs
    rw [Sys.Leaving, hplace, hpc]
    exact h

theorem goesOn (hne : s.place ≠ .stopped) :
    ∃ a, a.ofThread = true ∧ (ClientLoop.step s a).isSome := by
  cases hplace : s.place with
  | loop =>
    rcases h with hleft | hout
    · exact ⟨.uninit, rfl, by rw [ClientLoop.step, if_pos hleft]; rfl⟩
    · rw [hplace] at hout
      cases hout
  | scan i tmpSet =>
    rcases h with ⟨hloop, -⟩ | hout
    · rw [hplace] at hloop
      cases hloop
    · rw [hplace] at hout
      cases hout
  | ended => exact ⟨.threadEnds, rfl, by rw [ClientLoop.step, if_pos hplace]; rfl⟩
  | stopped => exact absurd hplace hne

end Sys.Leaving

/-- How many steps the thread has left on its way out. -/
def Place.left : Place → Nat
  | .loop | .scan .. => 2
  | .ended => 1
  | .stopped => 0

theorem ends_of_leaving {s : Sys} (hinv : Inv s) (h : s.Leaving) : Ends s := by
  have hrun {as : List Action} {t : Sys} (hrun : run step s as = some t) : Inv t ∧ t.Leaving :=
    @run_invariant _ _ step (fun _ _ => True) (fun t => Inv t ∧ t.Leaving)
      (fun ht _ hs => ⟨ht.1.step hs, ht.2.step hs⟩) as s t ⟨hinv, h⟩
      (along_of_forall fun _ _ => trivial) hrun
  refine ⟨?_, fun as t ht hne => (hrun ht).2.goesOn hne, fun as t ht hplace => ?_⟩
  · apply @finishes_of_decreasing _ _ step (fun a => a.ofThread = true) Sys.Leaving s
      (fun t => t.place.left)
    · exact fun ht hs => ht.step hs
    · intro t a t' ht ha hs
      obtain ⟨⟨hplace, hplace'⟩ | ⟨hplace, hplace'⟩, -⟩ := ht.thread ha hs
      · rw [hplace, hplace']
        decide
      · rw [hplace, hplace']
        decide
    · intro t a t' ht ha hs
      rw [(step_others ha hs).1]
    · exact h
  · obtain ⟨hfd, hpipe⟩ := (hrun ht).1.closed (by rw [hplace]; rfl)
    exact ⟨hfd, hpipe, by rw [(hrun ht).1.flag, hplace]; rfl⟩

theorem refuses_of_stopped {s : Sys} (hinv : Inv s) (hflag : s.m_runningFlag = 0) : Refuses s := by
  have hstopped {t : Sys} (ht : Inv t) (hflag : t.m_runningFlag = 0) : t.place = .stopped := by
    rw [ht.flag] at hflag
    cases hplace : t.place with
    | stopped => rfl
    | loop | scan | ended =>
      rw [hplace] at hflag
      cases hflag
  intro as t hrun c
  have ht : Inv t ∧ t.m_runningFlag = 0 := by
    refine @run_invariant _ _ step (fun _ _ => True) (fun t => Inv t ∧ t.m_runningFlag = 0)
      (fun {t a t'} ht _ hs => ⟨ht.1.step hs, ?_⟩) as s t ⟨hinv, hflag⟩
      (along_of_forall fun _ _ => trivial) hrun
    have hplace := hstopped ht.1 ht.2
    by_cases ha : a.ofThread = true
    · have hleaving : t.Leaving := .inr (by rw [hplace]; rfl)
      obtain ⟨⟨hloop, -⟩ | ⟨hended, -⟩, -⟩ := hleaving.thread ha hs
      · rw [hplace] at hloop
        cases hloop
      · rw [hplace] at hended
        cases hended
    · rw [(ht.1.step hs).flag, (step_others ha hs).1, hplace]
      rfl
  have hrunning : t.isRunning = false := by
    rw [Sys.isRunning, ht.2]
    rfl
  rw [Sys.reply, ClientEnv.sendReq, hrunning, if_pos rfl]
  exact ⟨by decide, rfl⟩

/-- A step of the thread after which it is still in the `while`. -/
def GoesOn (s : Sys) : Prop :=
  ∃ a t, a.ofThread = true ∧ step s a = some t ∧ t.place.inLoop = true ∧ t.socket.pc ≠ .left

theorem loop_goesOn {s : Sys} (hinv : Inv s) (hplace : s.place = .loop) (hpc : s.socket.pc ≠ .left) :
    GoesOn s := by
  have hin : s.place.inLoop = true := by
    rw [hplace]
    rfl
  obtain ⟨hsocket, hfd⟩ := hinv.socket hin
  obtain ⟨htop, hfront, hsent, hfailed⟩ := LocalSocket.progress hsocket hfd
  have hpop {t : LocalSocket.Sys} (ht : LocalSocket.step s.socket .pop = some t) (htpc : t.pc ≠ .left) :
      GoesOn s := by
    refine ⟨.pop, { s with
      socket := t
      fdset := s.fdset.filter fun fd => s.failedFd ≠ some fd }, rfl, ?_, hin, htpc⟩
    rw [step, if_pos hplace, Sys.pop, Sys.queue, ht]
    rfl
  cases hat : s.socket.pc with
  | top =>
    obtain ⟨t, ht, htpc⟩ := htop hat
    refine ⟨.front, { s with socket := t }, rfl, ?_, hin, htpc⟩
    rw [step, if_pos hplace, Sys.queue, ht]
    rfl
  | front p =>
    obtain ⟨t, ht, htpc⟩ := hfront p hat
    refine ⟨.send false 0, { s with
      socket := t
      notified := s.notified || decide (t.pc = .left) }, rfl, ?_, hin, ?_⟩
    · rw [step, if_pos hplace, Sys.send, Sys.queue, ht]
      rfl
    · rw [htpc]
      exact LocalSocket.Pc.noConfusion
  | sent p =>
    obtain ⟨t, ht, htpc⟩ := hsent p hat
    exact hpop ht (by rw [htpc]; exact LocalSocket.Pc.noConfusion)
  | failed p =>
    obtain ⟨t, ht, htpc⟩ := hfailed p hat
    exact hpop ht (by rw [htpc]; exact LocalSocket.Pc.noConfusion)
  | select =>
    refine ⟨.select none, { s with socket := { s.socket with pc := .top } }, rfl, ?_, hin,
      LocalSocket.Pc.noConfusion⟩
    rw [step, if_pos hplace, Sys.select, Sys.queue, LocalSocket.step, if_pos hat]
    rfl
  | left => exact absurd hat hpc

theorem scan_goesOn {s : Sys} (hinv : Inv s) {i : Fd} {tmpSet : List Fd} (hplace : s.place = .scan i tmpSet) :
    GoesOn s := by
  have hselect := hinv.scanning i tmpSet hplace
  by_cases hi : s.maxfd < i
  · refine ⟨.scan 1, { s with socket := { s.socket with pc := .top }, place := .loop }, rfl, ?_, rfl,
      LocalSocket.Pc.noConfusion⟩
    rw [step, hplace]
    dsimp only
    rw [Sys.scan, if_pos hi, Sys.queue, LocalSocket.step, if_pos hselect]
    rfl
  · refine ⟨.scan 1, { s with place := .scan (i + 1) tmpSet }, rfl, ?_, rfl, ?_⟩
    · rw [step, hplace]
      dsimp only
      rw [Sys.scan, if_neg hi, if_pos (.inr (.inr (.inr (by decide))))]
    · dsimp only
      rw [hselect]
      exact LocalSocket.Pc.noConfusion

/-- While the thread has not left it can go on in the `while` for ever. -/
theorem not_finishes {s : Sys} (hinv : Inv s) (hin : s.place.inLoop = true)
    (hpc : s.socket.pc ≠ .left) : ¬ Finishes step (fun a => a.ofThread = true) s := by
  apply @not_finishes_of_progress _ _ step (fun a => a.ofThread = true)
    (fun s => Inv s ∧ s.place.inLoop = true ∧ s.socket.pc ≠ .left) s
  · rintro s ⟨hinv, hin, hpc⟩
    have hgo : GoesOn s := by
      cases hplace : s.place with
      | loop => exact loop_goesOn hinv hplace hpc
      | scan i tmpSet => exact scan_goesOn hinv hplace
      | ended | stopped =>
        rw [hplace] at hin
        cases hin
    obtain ⟨a, t, ha, ht, htin, htpc⟩ := hgo
    exact ⟨a, t, ha, ht, hinv.step ht, htin, htpc⟩
  · exact ⟨hinv, hin, hpc⟩

/-- No disconnect is noticed but by the way out. -/
structure Calm (s : Sys) : Prop where
  leaving : s.notified = true → s.Leaving
  quiet : ∀ notified ∈ s.sends, notified = false

theorem Calm.final {s : Sys} (h : Calm s) (hinv : Inv s) : Final s where
  quiet := h.quiet
  ends := fun hnotified => ends_of_leaving hinv (h.leaving hnotified)
  refuses := fun _ hflag => refuses_of_stopped hinv hflag

/-- A step that raises no `notifyError` and makes no `send`. -/
theorem Calm.still {s s' : Sys} {a : Action} (h : Calm s) (hs : step s a = some s')
    (hnotified : s'.notified = s.notified) (hsends : s'.sends = s.sends) : Calm s' where
  leaving := fun hn => (h.leaving (hnotified ▸ hn)).step hs
  quiet := hsends ▸ h.quiet

theorem Calm.step {s s' : Sys} {a : Action} (h : Calm s) (hreceived : Received s a)
    (hs : step s a = some s') : Calm s' := by
  cases step_cases hs with
  | refused | others | queue | select | scanned | passed | uninit | threadEnds => exact h.still hs rfl rfl
  | @send canWrite ret socket hplace hpc hb =>
    have hunnotified : s.notified = false := by
      cases hn : s.notified with
      | false => rfl
      | true =>
        rcases h.leaving hn with ⟨-, hleft⟩ | hout
        · exact absurd hleft hpc
        · rw [hplace] at hout
          cases hout
    constructor
    · intro hn
      dsimp only at hn
      rw [hunnotified, Bool.false_or] at hn
      exact .inl ⟨hplace, of_decide_eq_true hn⟩
    · dsimp only
      split
      · intro n hn
        rcases List.mem_append.mp hn with hn | hn
        · exact h.quiet n hn
        · rw [List.mem_singleton.mp hn, hunnotified]
      · exact h.quiet
  | @closed i tmpSet ret hplace hi htmp hset hpipe hret =>
    have hother : i ≠ s.socket.m_fd := by
      rintro rfl
      exact hret (hreceived ret rfl ⟨tmpSet, hplace, hi, htmp, hset, hpipe⟩)
    refine h.still hs ?_ rfl
    dsimp only
    rw [decide_eq_false hother, Bool.or_false]

theorem keeps_iff_received {s : Sys} (hinv : Inv s) (hcalm : Calm s) (a : Action) :
    Received s a ↔ Keeps s a := by
  constructor
  · exact fun hreceived s' hs => (hcalm.step hreceived hs).final (hinv.step hs)
  · rintro hkeeps ret rfl ⟨tmpSet, hplace, hi, htmp, hset, hpipe⟩
    by_contra hret
    have hread : ¬ (s.socket.m_fd ∉ tmpSet ∨ s.socket.m_fd ∉ s.fdset ∨
        s.socket.m_fd = s.m_pipefd ∨ 0 < ret) := by
      simp only [not_or, not_not]
      exact ⟨htmp, hset, hpipe, hret⟩
    have hs : step s (.scan ret) = some { s with
        fdset := s.fdset.filter (· ≠ s.socket.m_fd)
        notified := s.notified || decide (s.socket.m_fd = s.socket.m_fd)
        place := .scan (s.socket.m_fd + 1) tmpSet } := by
      rw [step, hplace]
      dsimp only
      rw [Sys.scan, if_neg (Nat.not_lt.mpr hi), if_neg hread]
    have hfinal := hkeeps _ hs
    have hends := hfinal.ends (by dsimp only; rw [decide_eq_true rfl, Bool.or_true])
    refine not_finishes (hinv.step hs) rfl ?_ hends.finishes
    dsimp only
    rw [hinv.scanning _ _ hplace]
    exact LocalSocket.Pc.noConfusion

/-- In a run of the engine every disconnect noticed is final just when no `recv` on the
client's own descriptor fails or returns nothing: only a failed `send` leaves the loop. -/
theorem disconnect_final_iff_received {m_fd m_pipefd : Fd} (h : 0 < m_fd) (as : List Action) :
    Along step Keeps (init m_fd m_pipefd) as ↔ Along step Received (init m_fd m_pipefd) as := by
  have hcalm : Calm (init m_fd m_pipefd) := ⟨fun hn => (by cases hn), fun _ hn => (by cases hn)⟩
  exact (@along_congr _ _ _ Received Keeps (fun s => Inv s ∧ Calm s)
    (fun hs hreceived hstep => ⟨hs.1.step hstep, hs.2.step hreceived hstep⟩)
    (fun hs => keeps_iff_received hs.1 hs.2 _) _ _ ⟨inv_init h, hcalm⟩).symm

/-- A request without a body, on a connected client of version 4. -/
def exampleReq : ReqCall := ⟨exampleClient, FUNC_CANCEL_CPU_HIGH_FREQ, none, 0, 1, 0⟩

/-- A request, and a `send` that fails. -/
def sendFails : List Action :=
  [.sendReq 0 exampleReq, .push 0, .front, .send true (-1), .uninit, .threadEnds]

theorem disconnect_final_iff_received_sendFails :
    Along step Keeps (init 5 3) sendFails ↔ Along step Received (init 5 3) sendFails :=
  disconnect_final_iff_received (by decide) sendFails

/-- The server closes the connection, and a request follows. -/
def peerCloses : List Action :=
  [.front, .select (some [5]), .scan 0, .scan 0, .scan 0, .scan 0, .sendReq 0 exampleReq, .push 0,
    .front, .send true 32]

/-- The request is accepted and sent although the loop knows that the server is gone. -/
theorem disconnect_not_final :
    ((run step (init 5 3) (peerCloses.take 6)).map fun s =>
      (s.notified, decide (0 < (s.reply exampleReq).ret))) = some (true, true) ∧
    ((run step (init 5 3) peerCloses).map fun s => (s.m_runningFlag, s.sends)) =
      some (1, [true]) ∧
    ¬ Along step Keeps (init 5 3) peerCloses := by
  have hsends : ((run step (init 5 3) peerCloses).map fun s => (s.m_runningFlag, s.sends)) =
      some (1, [true]) := by decide +kernel
  refine ⟨by decide +kernel, hsends, fun hkeeps => ?_⟩
  obtain ⟨t, hrun, ht⟩ := Option.map_eq_some_iff.mp hsends
  have hinit : Final (init 5 3) :=
    ⟨fun _ hn => (by cases hn), fun hn => (by cases hn), fun hn => (by cases hn)⟩
  have hfinal : Final t :=
    @run_invariant _ _ step Keeps Final (fun _ hkeeps hs => hkeeps _ hs) _ _ _ hinit hkeeps hrun
  have ht : t.sends = [true] := congrArg Prod.snd ht
  cases hfinal.quiet true (by rw [ht]; exact List.mem_singleton_self _)

end ClientLoop

end Hardcoder
