import Mathlib.Logic.Function.Basic
import Hardcoder.Lib.Runs
import Hardcoder.ServerReceive

/-! The local-socket server as a system: the kernel's descriptor table, the thread in
`LocalSocket::loop` and the thread in `localServerRespThread`. A connection gets a
number of its own when it is accepted; descriptors are numbered by the kernel, which
may use a closed one again. Numbers and bytes are tagged with connections only to
say what happened; the code sees descriptors and bytes. -/

namespace Hardcoder
open Stream
set_option autoImplicit false

namespace LocalSocketServer

abbrev Fd := Nat
abbrev Conn := Nat

/-- A byte of a buffer and the connection it was received on, if any. -/
structure Tagged where
  origin : Option Conn
  val : UInt8
deriving DecidableEq, Repr

/-- `SendPack`, with the connection whose request it answers or that it notifies. -/
structure SendPack where
  fd : Fd
  data : List UInt8
  offset : Nat
  cause : Option Conn
deriving DecidableEq, Repr

/-- A `ServerDataWorker<int>` in `respQueue`. -/
structure Worker where
  remote : Fd
  resp : List UInt8
  cause : Option Conn
deriving DecidableEq, Repr

/-- Where the loop thread is. -/
inductive Pc where
  /-- head of the `while` -/
  | top
  | select
  /-- the `for` over the descriptors, with the set `select` returned -/
  | scan (i : Fd) (tmpSet : List Fd)
  /-- `loop` has returned -/
  | quit
deriving DecidableEq, Repr

/-- A `processReceive` call, and the connection it was made for. -/
structure Call where
  conn : Option Conn
  fd : Fd
  uid : Nat
  frame : ReqFrame Tagged
deriving DecidableEq, Repr

inductive Syscall where
  | send
  | close
deriving DecidableEq, Repr

/-- A `send` or `close`: the connection it is done for, and the one it acts on. -/
structure Deed where
  syscall : Syscall
  cause : Option Conn
  target : Option Conn
deriving DecidableEq, Repr

structure Sys where
  m_fd : Fd
  m_pipefd : Fd
  /-- the open client descriptors -/
  conns : Fd → Option Conn
  accepted : Nat
  fdset : List Fd
  maxfd : Fd
  mapUid : Fd → Nat
  mapRecvCache : Fd → Option (RecvCache Tagged)
  m_sendQueue : List SendPack
  respQueue : List Worker
  /-- popped by the response thread, not yet given to `sendData` -/
  inHand : Option Worker
  pc : Pc
  calls : List Call
  deeds : List Deed

def init (m_fd m_pipefd : Fd) : Sys where
  m_fd := m_fd
  m_pipefd := m_pipefd
  conns := fun _ => none
  accepted := 0
  fdset := [m_fd, m_pipefd]
  maxfd := m_fd
  mapUid := fun _ => 0
  mapRecvCache := fun _ => none
  m_sendQueue := []
  respQueue := []
  inHand := none
  pc := .top
  calls := []
  deeds := []

/-- What the kernel answers to the `accept` or `recv` of one scanned descriptor. -/
inductive Answer where
  | none
  /-- the new descriptor and the peer's uid; `Option.none` when `socketAccept` fails -/
  | accept (r : Option (Fd × Nat))
  /-- the bytes received, what lies behind them in `szBuf` and further, the response of
  the `processReceive` calls (none for a negative request id), the passes of the parser -/
  | recv (bytes : List UInt8) (beyond : Nat → UInt8) (resps : Nat → Option (List UInt8))
      (fuel : Nat)
  /-- `recv` returned 0 or less -/
  | recvError

inductive Action where
  /-- what `checkCanWrite` and `send` return for the front pack -/
  | send (canWrite : Bool) (ret : Int)
  /-- the set returned by `select`; `none` on a timeout or an error -/
  | select (tmpSet : Option (List Fd))
  | scan (answer : Answer)
  /-- `respQueue.pop()` -/
  | popResp
  /-- `sendData` -/
  | sendData
  /-- `onCallback` in another thread, for a descriptor `findFdByUid` has found -/
  | onCallback (fd : Fd) (resp : List UInt8)

/-- The number a new connection gets in this step. -/
def Action.accepts : Action → Option Fd
  | .scan (.accept r) => r.map Prod.fst
  | _ => none

namespace Sys

/-- `close`, logged with the connection it is done for. -/
def close (s : Sys) (fd : Fd) (cause : Option Conn) : Sys :=
  { s with
    conns := Function.update s.conns fd none
    deeds := s.deeds ++ [⟨.close, cause, s.conns fd⟩] }

/-- `FD_CLR` and `notifyError` on a server. `EVENT_ERROR` does nothing there. -/
def notifyError (s : Sys) (fd : Fd) (cause : Option Conn) : Sys :=
  Sys.close { s with fdset := s.fdset.filter (· ≠ fd) } fd cause

/-- The send part of the loop. On a descriptor that is not open `select` leaves the
set unchanged and `send` fails. -/
def sendFront (s : Sys) (canWrite : Bool) (ret : Int) : Option Sys :=
  match s.m_sendQueue with
  | [] => some { s with pc := .select }
  | p :: queue =>
    if s.conns p.fd = none ∧ ¬ (canWrite = true ∧ ret < 0) then none
    else if canWrite = false then some { s with pc := .select }
    else
      let s : Sys := { s with deeds := s.deeds ++ [⟨.send, p.cause, s.conns p.fd⟩] }
      if ret < 0 then
        if p.fd = s.m_fd then some { s with pc := .quit }
        else some (notifyError { s with m_sendQueue := queue, pc := .top } p.fd p.cause)
      else
        let p := { p with offset := p.offset + ret.toNat }
        if p.data.length < p.offset then none
        else if p.offset = p.data.length then some { s with m_sendQueue := queue, pc := .select }
        else some { s with m_sendQueue := p :: queue, pc := .select }

/-- The accept branch: `socketAccept`, and the new descriptor joins the set. -/
def socketAccept (s : Sys) (i : Fd) (tmpSet : List Fd) (r : Option (Fd × Nat)) : Option Sys :=
  match r with
  | none => some { s with pc := .quit }
  | some (acceptFd, uid) =>
    if s.conns acceptFd ≠ none ∨ acceptFd = s.m_fd ∨ acceptFd = s.m_pipefd then none
    else
      let s : Sys := { s with
        conns := Function.update s.conns acceptFd (some s.accepted)
        accepted := s.accepted + 1
        mapUid := Function.update s.mapUid acceptFd uid }
      if acceptFd = 0 then some { s with pc := .quit }
      else some { s with
        fdset := acceptFd :: s.fdset
        maxfd := max s.maxfd acceptFd
        pc := .scan (i + 1) tmpSet }

/-- The calls and the queued workers of one `EVENT_DATA`. -/
def received (s : Sys) (i : Fd) (resps : Nat → Option (List UInt8)) (r : RecvResult Tagged) : Sys :=
  { s with
    mapRecvCache := Function.update s.mapRecvCache i r.cache
    calls := s.calls ++ r.frames.map fun f => ⟨s.conns i, i, s.mapUid i, f⟩
    respQueue := s.respQueue ++ (List.range r.frames.length).filterMap fun j =>
      (resps j).map fun resp => ⟨i, resp, s.conns i⟩ }

/-- `szBuf` after the `recv` of `bytes` on connection `c`. -/
def szBuf (c : Conn) (bytes : List UInt8) (beyond : Nat → UInt8) : Delivery Tagged :=
  ⟨bytes.map fun b => ⟨some c, b⟩, fun n => ⟨none, beyond n⟩⟩

/-- One pass of the `for` over the descriptors. -/
def scan (s : Sys) (i : Fd) (tmpSet : List Fd) (answer : Answer) : Option Sys :=
  if s.maxfd < i then some { s with pc := .top }
  else if i ∉ tmpSet ∨ i ∉ s.fdset ∨ i = s.m_pipefd then some { s with pc := .scan (i + 1) tmpSet }
  else if i = s.m_fd then
    match answer with
    | .accept r => s.socketAccept i tmpSet r
    | _ => none
  else
    match answer with
    | .recvError => some (notifyError { s with pc := .scan (i + 1) tmpSet } i (s.conns i))
    | .recv bytes beyond resps fuel =>
      (s.conns i).bind fun c =>
        if bytes = [] ∨ 4096 < bytes.length then none
        else (recvEvent Tagged.val fuel (s.mapRecvCache i) (szBuf c bytes beyond)).map fun r =>
          { s.received i resps r with pc := .scan (i + 1) tmpSet }
    | _ => none

end Sys

def step (s : Sys) : Action → Option Sys
  | .send canWrite ret => if s.pc = .top then s.sendFront canWrite ret else none
  | .select tmpSet =>
    if s.pc = .select then
      match tmpSet with
      | none => some { s with pc := .top }
      | some tmpSet => some { s with pc := .scan 3 tmpSet }
    else none
  | .scan answer =>
    match s.pc with
    | .scan i tmpSet => s.scan i tmpSet answer
    | _ => none
  | .popResp =>
    match s.inHand, s.respQueue with
    | none, w :: queue => some { s with respQueue := queue, inHand := some w }
    | _, _ => none
  | .sendData =>
    match s.inHand with
    | some w =>
      if w.resp = [] then some { s with inHand := none }
      -- `push` waits while five packs are queued
      else if 5 ≤ s.m_sendQueue.length then none
      else some { s with
        inHand := none
        m_sendQueue := s.m_sendQueue ++ [⟨w.remote, w.resp, 0, w.cause⟩] }
    | none => none
  | .onCallback fd resp => some { s with respQueue := s.respQueue ++ [⟨fd, resp, s.conns fd⟩] }

/-- The descriptors that responses still wait to be sent to, with their causes. -/
def Sys.targets (s : Sys) : List (Fd × Option Conn) :=
  s.m_sendQueue.map (fun p => (p.fd, p.cause)) ++
    (s.inHand.toList.map (fun w => (w.remote, w.cause)) ++
      s.respQueue.map (fun w => (w.remote, w.cause)))

/-- What a step can do to connections, caches, calls, deeds and waiting responses. -/
inductive Effect (s : Sys) : Action → Sys → Prop where
  | quiet {a : Action} {s' : Sys} (hconns : s'.conns = s.conns)
      (hcache : s'.mapRecvCache = s.mapRecvCache) (hcalls : s'.calls = s.calls)
      (hdeeds : s'.deeds = s.deeds) (htargets : ∀ t ∈ s'.targets, t ∈ s.targets) : Effect s a s'
  | sent {a : Action} {s' : Sys} (p : SendPack) (hp : p ∈ s.m_sendQueue)
      (hconns : s'.conns = s.conns) (hcache : s'.mapRecvCache = s.mapRecvCache)
      (hcalls : s'.calls = s.calls)
      (hdeeds : s'.deeds = s.deeds ++ [⟨.send, p.cause, s.conns p.fd⟩])
      (htargets : ∀ t ∈ s'.targets, t ∈ s.targets) : Effect s a s'
  | sendFailed {a : Action} {s' : Sys} (p : SendPack) (hp : p ∈ s.m_sendQueue)
      (hconns : s'.conns = Function.update s.conns p.fd none)
      (hcache : s'.mapRecvCache = s.mapRecvCache) (hcalls : s'.calls = s.calls)
      (hdeeds : s'.deeds = s.deeds ++
        [⟨.send, p.cause, s.conns p.fd⟩, ⟨.close, p.cause, s.conns p.fd⟩])
      (htargets : ∀ t ∈ s'.targets, t ∈ s.targets) : Effect s a s'
  | accepted {s' : Sys} (fd uid : Nat) (hfree : s.conns fd = none)
      (hconns : s'.conns = Function.update s.conns fd (some s.accepted))
      (hcache : s'.mapRecvCache = s.mapRecvCache) (hcalls : s'.calls = s.calls)
      (hdeeds : s'.deeds = s.deeds) (htargets : s'.targets = s.targets) :
      Effect s (.scan (.accept (some (fd, uid)))) s'
  | recvError {a : Action} {s' : Sys} (i : Fd)
      (hconns : s'.conns = Function.update s.conns i none)
      (hcache : s'.mapRecvCache = s.mapRecvCache) (hcalls : s'.calls = s.calls)
      (hdeeds : s'.deeds = s.deeds ++ [⟨.close, s.conns i, s.conns i⟩])
      (htargets : s'.targets = s.targets) : Effect s a s'
  | received {s' : Sys} (i : Fd) (tmpSet : List Fd) (c : Conn) (bytes : List UInt8)
      (beyond : Nat → UInt8) (resps : Nat → Option (List UInt8)) (fuel : Nat)
      (r : RecvResult Tagged) (hpc : s.pc = .scan i tmpSet) (hc : s.conns i = some c)
      (hlen : bytes.length ≤ 4096)
      (hr : recvEvent Tagged.val fuel (s.mapRecvCache i) (Sys.szBuf c bytes beyond) = some r)
      (hs' : s' = { s.received i resps r with pc := .scan (i + 1) tmpSet }) :
      Effect s (.scan (.recv bytes beyond resps fuel)) s'
  | notified {s' : Sys} (fd : Fd) (resp : List UInt8)
      (hs' : s' = { s with respQueue := s.respQueue ++ [⟨fd, resp, s.conns fd⟩] }) :
      Effect s (.onCallback fd resp) s'

theorem sendFront_effect {s s' : Sys} {canWrite : Bool} {ret : Int} {a : Action}
    (h : s.sendFront canWrite ret = some s') : Effect s a s' := by
  unfold Sys.sendFront at h
  split at h
  · obtain rfl := Option.some.inj h
    exact .quiet rfl rfl rfl rfl fun _ ht => ht
  · rename_i p queue hq
    have hp : p ∈ s.m_sendQueue := by rw [hq]; exact List.mem_cons_self
    have hpop : ∀ t, t ∈ queue.map (fun p => (p.fd, p.cause)) →
        t ∈ s.m_sendQueue.map (fun p => (p.fd, p.cause)) := by
      intro t ht
      rw [hq]
      exact List.mem_cons_of_mem _ ht
    have htargets : ∀ t, t ∈ queue.map (fun p => (p.fd, p.cause)) ++
        (s.inHand.toList.map (fun w => (w.remote, w.cause)) ++
          s.respQueue.map (fun w => (w.remote, w.cause))) → t ∈ s.targets := by
      intro t ht
      rcases List.mem_append.mp ht with ht | ht
      · exact List.mem_append_left _ (hpop t ht)
      · exact List.mem_append_right _ ht
    split at h
    · cases h
    split at h
    · obtain rfl := Option.some.inj h
      exact .quiet rfl rfl rfl rfl fun _ ht => ht
    dsimp only at h
    split at h
    · split at h
      · obtain rfl := Option.some.inj h
        exact .sent p hp rfl rfl rfl rfl fun _ ht => ht
      · obtain rfl := Option.some.inj h
        exact .sendFailed p hp rfl rfl rfl (by simp [Sys.notifyError, Sys.close]) htargets
    · split at h
      · cases h
      split at h
      · obtain rfl := Option.some.inj h
        exact .sent p hp rfl rfl rfl rfl htargets
      · obtain rfl := Option.some.inj h
        refine .sent p hp rfl rfl rfl rfl fun t ht => ?_
        have hsame : s.targets = (p :: queue).map (fun p => (p.fd, p.cause)) ++
            (s.inHand.toList.map (fun w => (w.remote, w.cause)) ++
              s.respQueue.map (fun w => (w.remote, w.cause))) := by rw [Sys.targets, hq]
        rw [hsame]
        exact ht

theorem socketAccept_effect {s s' : Sys} {i : Fd} {tmpSet : List Fd} {r : Option (Fd × Nat)}
    (h : s.socketAccept i tmpSet r = some s') : Effect s (.scan (.accept r)) s' := by
  unfold Sys.socketAccept at h
  split at h
  · obtain rfl := Option.some.inj h
    exact .quiet rfl rfl rfl rfl fun _ ht => ht
  · rename_i fd uid
    split at h
    · cases h
    · rename_i hfree
      have hfree : s.conns fd = none := by
        by_contra hne
        exact hfree (.inl hne)
      dsimp only at h
      split at h <;> obtain rfl := Option.some.inj h <;> exact .accepted fd uid hfree rfl rfl rfl rfl rfl

theorem scan_effect {s s' : Sys} {i : Fd} {tmpSet : List Fd} {answer : Answer}
    (hpc : s.pc = .scan i tmpSet) (h : s.scan i tmpSet answer = some s') :
    Effect s (.scan answer) s' := by
  unfold Sys.scan at h
  split at h
  · obtain rfl := Option.some.inj h
    exact .quiet rfl rfl rfl rfl fun _ ht => ht
  split at h
  · obtain rfl := Option.some.inj h
    exact .quiet rfl rfl rfl rfl fun _ ht => ht
  split at h
  · split at h
    · exact socketAccept_effect h
    · cases h
  · split at h
    · obtain rfl := Option.some.inj h
      exact .recvError i rfl rfl rfl rfl rfl
    · obtain ⟨c, hc, h⟩ := Option.bind_eq_some_iff.mp h
      split at h
      · cases h
      · rename_i hlen
        obtain ⟨r, hr, rfl⟩ := Option.map_eq_some_iff.mp h
        exact .received i tmpSet c _ _ _ _ r hpc hc (by omega) hr rfl
    · cases h

theorem step_effect {s s' : Sys} {a : Action} (h : step s a = some s') : Effect s a s' := by
  cases a with
  | send canWrite ret =>
    simp only [step] at h
    split at h
    · exact sendFront_effect h
    · cases h
  | select tmpSet =>
    simp only [step] at h
    split at h
    · split at h <;> obtain rfl := Option.some.inj h <;> exact .quiet rfl rfl rfl rfl fun _ ht => ht
    · cases h
  | scan answer =>
    simp only [step] at h
    split at h
    · exact scan_effect ‹_› h
    · cases h
  | popResp =>
    simp only [step] at h
    split at h
    · rename_i w queue hhand hqueue
      obtain rfl := Option.some.inj h
      refine .quiet rfl rfl rfl rfl fun t ht => ?_
      simpa [Sys.targets, hhand, hqueue] using ht
    · cases h
  | sendData =>
    simp only [step] at h
    split at h
    · rename_i w hhand
      split at h
      · obtain rfl := Option.some.inj h
        refine .quiet rfl rfl rfl rfl fun t ht => ?_
        simp only [Sys.targets, Option.toList_none, List.map_nil, List.nil_append,
          List.mem_append] at ht ⊢
        exact ht.elim .inl fun h => .inr (.inr h)
      · split at h
        · cases h
        · obtain rfl := Option.some.inj h
          refine .quiet rfl rfl rfl rfl fun t ht => ?_
          simpa [Sys.targets, hhand, or_assoc] using ht
    · cases h
  | onCallback fd resp => exact .notified fd resp (Option.some.inj h).symm

/-- One pass of the loop of a server that listens on 5 and has at most client 6, in
which only `ready` is ready and nothing is to be sent. -/
def loopPass (ready : Fd) (answer : Answer) : List Action :=
  .send false 0 :: .select (some [ready]) ::
    [3, 4, 5, 6, 7].map fun i => .scan (if i = ready then answer else .none)

/-- A request without a body. -/
def emptyRequest : List UInt8 :=
  (reqHeader HEADER_PROTOCAL_VERSION ⟨1, 0⟩ 1000 0 1 0).encode

end LocalSocketServer

end Hardcoder
