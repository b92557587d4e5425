import Hardcoder.ClientFraming
import Hardcoder.Rqueue
import Hardcoder.SendQueue
import Hardcoder.ServerCallbacks

/-! Clients and the server they connect to, from `sendReq` in a client to `onCallback` in it:
the threads that send and the one in `loop` of each client, and the server's thread in `loop`,
its response thread and those that notify clients. A connection gets a number when it is
accepted; its descriptor may be one that an earlier connection had. What the kernel has
accepted on a socket is a stream of bytes that the other side reads some of. -/

namespace Hardcoder
open Stream Runs
set_option autoImplicit false

namespace LocalSocket

/-- The steps of the thread in `loop`. -/
def Action.ofLoop : Action → Bool
  | .sendData .. | .push _ => false
  | _ => true

/-- The descriptor of the front pack, before `send`. -/
def Sys.frontFd (s : Sys) : Option Fd :=
  match s.pc with
  | .front p => (s.heap p).map SendPack.fd
  | _ => none

/-- The descriptor of the pack that could not be sent. -/
def Sys.failedFd (s : Sys) : Option Fd :=
  match s.pc with
  | .failed p => (s.heap p).map SendPack.fd
  | _ => none

end LocalSocket

namespace ClientServer
open LocalSocket (Fd Ptr)
open LocalSocketServer (Conn)

/-- What stays as it is. -/
structure Setting where
  /-- the server's -/
  HEADER_VERSION : BitVec 16
  /-- the listening descriptor -/
  m_fd : Fd
  /-- the client's `HEADER_VERSION` -/
  version : Conn → BitVec 16
  /-- the client's descriptor -/
  own : Conn → Fd
  /-- `ucred.uid` -/
  uid : Conn → JInt
  /-- what was in the client engine's block -/
  block : Conn → List UInt8

/-- A request that was assembled from what connection `conn` has sent. -/
structure Assembled where
  conn : Conn
  fd : Fd
  uid : JInt
  frame : ReqFrame UInt8

/-- Its `processReceive` call. -/
structure Handled extends Assembled where
  env : ServerEnv

/-- An element of `respQueue`, and the call it answers if it does not notify. -/
structure Entry where
  worker : ServerDataWorker Fd
  request : Option Handled

/-- What `sendData(pp->getRemote(), pp->getResp(), pp->getResLen())` copies; it refuses a length
that is not positive as an `int`. -/
def Entry.bytes (e : Entry) : List UInt8 :=
  if 0 < e.worker.respLen.toInt then copied e.worker.resp e.worker.respLen else []

/-- A connection: the client's engine, and what has gone over the connection. -/
structure Peer where
  socket : LocalSocket.Sys
  /-- the request whose pack a thread has made at an address -/
  made : Ptr → Option Request
  /-- what was pushed, in that order -/
  requests : List Request
  /-- what the server has read of what the client's kernel accepted -/
  read : List UInt8
  /-- what was pushed to `respQueue` for its descriptor while that was open, in that order -/
  queued : List Entry
  /-- what the server's kernel has accepted for it -/
  down : List UInt8
  /-- what the client has read of that -/
  taken : List UInt8
  /-- a `recv` of the client has returned 0 or less -/
  lost : Bool
  st : LocalsocketClient.RecvState
  /-- the calls of `onCallback` -/
  calls : List LocalsocketClient.Callback

structure Sys where
  peers : Conn → Peer
  socket : LocalSocket.Sys
  /-- the open descriptors of connections -/
  conns : Fd → Option Conn
  accepted : Nat
  mapUid : SortedMap Fd JInt
  /-- `close` leaves it as it is -/
  mapRecvCache : Fd → Option (RecvCache UInt8)
  /-- assembled by the current `recvEvent`, and not processed yet -/
  work : List Assembled
  /-- before the `push` of the thread in `loop` -/
  pushing : Option Entry
  respQueue : List Entry
  handled : List Handled

inductive Action where
  /-- `sendReq` in the client up to its `push` -/
  | sendReq (c : Conn) (p : Ptr) (r : Request)
  /-- that `push`, or a step of the client's `loop` -/
  | client (c : Conn) (a : LocalSocket.Action)
  /-- the client's `recv`, of at most `n` bytes -/
  | take (c : Conn) (n : Nat) (beyond : Nat → UInt8)
  /-- one that returns 0 or less -/
  | lose (c : Conn)
  /-- a step of the server's `loop` -/
  | server (a : LocalSocket.Action)
  /-- `socketAccept`: the new descriptor, none if it fails -/
  | accept (r : Option Fd)
  /-- `recv` of the server -/
  | recv (fd : Fd) (n : Nat) (beyond : Nat → UInt8)
  /-- one that returns 0 or less -/
  | hangUp (fd : Fd)
  /-- `processReceive` for the next request -/
  | process (env : ServerEnv)
  /-- `respQueue.push(pp)` -/
  | push
  /-- `onCallback` in another thread -/
  | notify (env : ServerEnv) (uid : JInt) (funcid : BitVec 32) (data : List UInt8)
  /-- the response thread, up to the `push` in `sendData` -/
  | respond (p : Ptr)
  | pushPack (p : Ptr)

/-- `szBuf` -/
def bufferSize : Nat := 4096

variable (S : Setting)

def Peer.new (c : Conn) : Peer where
  socket := LocalSocket.init (S.own c)
  made := fun _ => none
  requests := []
  read := []
  queued := []
  down := []
  taken := []
  lost := false
  st := .new (S.block c)
  calls := []

def init : Sys where
  peers := Peer.new S
  socket := LocalSocket.init S.m_fd
  conns := fun _ => none
  accepted := 0
  mapUid := .empty
  mapRecvCache := fun _ => none
  work := []
  pushing := none
  respQueue := []
  handled := []

namespace Sys
variable (s : Sys)

def update (c : Conn) (peer : Peer) : Sys := { s with peers := Function.update s.peers c peer }

/-- The server's `loop` is not inside `recvEvent`. -/
def Free : Prop := s.work = [] ∧ s.pushing = none

instance : Decidable s.Free :=
  decidable_of_iff (s.work.isEmpty = true ∧ s.pushing.isNone = true) (by
    rw [List.isEmpty_iff, Option.isNone_iff_eq_none, Free])

/-- What a `recv` of the server gets. -/
def upChunk (c : Conn) (n : Nat) : List UInt8 :=
  (((s.peers c).socket.handed (S.own c)).drop (s.peers c).read.length).take n

/-- What a `recv` of the client gets. -/
def downChunk (c : Conn) (n : Nat) : List UInt8 :=
  ((s.peers c).down.drop (s.peers c).taken.length).take n

/-! ### The clients -/

/-- The checks of `sendReq` and, for the length as an `int`, of `sendData`. -/
def Sendable (c : Conn) (r : Request) : Prop :=
  0 < (r.genPack (S.version c)).ret ∧ 0 < (r.genPack (S.version c)).outLen.toInt

instance (c : Conn) (r : Request) : Decidable (Sendable S c r) :=
  inferInstanceAs (Decidable (_ ∧ _))

def sendReq (c : Conn) (p : Ptr) (r : Request) : Option Sys :=
  if Sendable S c r then
    (LocalSocket.step (s.peers c).socket (.sendData p (S.own c) (r.pack (S.version c)))).map
      fun socket => s.update c { s.peers c with
        socket := socket
        made := Function.update (s.peers c).made p (some r) }
  else some s

def client (c : Conn) (a : LocalSocket.Action) : Option Sys :=
  match a with
  | .sendData .. => none
  | .push p => (LocalSocket.step (s.peers c).socket (.push p)).map fun socket =>
      s.update c { s.peers c with
        socket := socket
        requests := (s.peers c).requests ++ ((s.peers c).made p).toList }
  | a => (LocalSocket.step (s.peers c).socket a).map fun socket =>
      s.update c { s.peers c with socket := socket }

def take (c : Conn) (n : Nat) (beyond : Nat → UInt8) : Option Sys :=
  if (s.peers c).socket.pc = .select ∧ (s.peers c).lost = false ∧ s.downChunk c n ≠ [] ∧
      n ≤ bufferSize then
    (LocalsocketClient.recvEvent (bufferSize + 2) (s.peers c).st ⟨s.downChunk c n, beyond⟩).map
      fun r => s.update c { s.peers c with
        taken := (s.peers c).taken ++ s.downChunk c n
        st := r.st
        calls := (s.peers c).calls ++ r.calls }
  else none

/-- `FD_CLR`, and `EVENT_ERROR`, which does nothing. -/
def lose (c : Conn) : Option Sys :=
  if (s.peers c).socket.pc = .select ∧ (s.peers c).lost = false then
    some (s.update c { s.peers c with lost := true })
  else none

/-! ### The server's `loop` -/

/-- On a descriptor that is not open `select` leaves the set unchanged and `send` fails. -/
def Allowed : LocalSocket.Action → Prop
  | .send canWrite ret => s.socket.frontFd.all (fun fd => (s.conns fd).isSome) = true ∨
      canWrite = true ∧ ret < 0
  | _ => True

instance : ∀ a, Decidable (s.Allowed a)
  | .send .. => inferInstanceAs (Decidable (_ ∨ _))
  | .sendData .. | .push _ | .front | .pop | .select => inferInstanceAs (Decidable True)

/-- What the kernel has accepted by this step goes to the connection. -/
def sent (socket : LocalSocket.Sys) : Sys :=
  match s.socket.frontFd with
  | none => { s with socket := socket }
  | some fd =>
    match s.conns fd with
    | none => { s with socket := socket }
    | some c => { s.update c { s.peers c with
        down := (s.peers c).down ++ (socket.handed fd).drop (s.socket.handed fd).length } with
          socket := socket }

/-- `close`; the entry of `mapUid` stays. -/
def close (fd : Fd) : Sys := { s with conns := Function.update s.conns fd none }

/-- `notifyError` comes with the `pop` of a pack that could not be sent. -/
def popped (socket : LocalSocket.Sys) : Sys :=
  match s.socket.failedFd with
  | none => { s with socket := socket }
  | some fd => { s.close fd with socket := socket }

def server (a : LocalSocket.Action) : Option Sys :=
  if s.Free ∧ a.ofLoop = true ∧ s.Allowed a then
    (LocalSocket.step s.socket a).map fun socket =>
      match a with
      | .send .. => s.sent socket
      | .pop => s.popped socket
      | _ => { s with socket := socket }
  else none

/-- `loop` returns if the descriptor is not positive. -/
def accept (r : Option Fd) : Option Sys :=
  if s.Free ∧ s.socket.pc = .select then
    match r with
    | none => some { s with socket := { s.socket with pc := .left } }
    | some fd =>
      if s.conns fd = none ∧ fd ≠ S.m_fd then
        some { s with
          conns := Function.update s.conns fd (some s.accepted)
          accepted := s.accepted + 1
          mapUid := s.mapUid.set fd (S.uid s.accepted)
          socket := { s.socket with pc := if fd = 0 then .left else .select } }
      else none
  else none

/-- The descriptors are looked at from 3 on. -/
def recv (fd : Fd) (n : Nat) (beyond : Nat → UInt8) : Option Sys :=
  (s.conns fd).bind fun c =>
    if s.Free ∧ s.socket.pc = .select ∧ 3 ≤ fd ∧ s.upChunk S c n ≠ [] ∧ n ≤ bufferSize then
      (recvEvent id (bufferSize + 1) (s.mapRecvCache fd) ⟨s.upChunk S c n, beyond⟩).map fun r =>
        { s.update c { s.peers c with read := (s.peers c).read ++ s.upChunk S c n } with
          mapRecvCache := Function.update s.mapRecvCache fd r.cache
          work := r.frames.map fun frame => ⟨c, fd, (s.mapUid.get? fd).getD 0, frame⟩ }
    else none

def hangUp (fd : Fd) : Option Sys :=
  if s.Free ∧ s.socket.pc = .select ∧ 3 ≤ fd ∧ s.conns fd ≠ none then some (s.close fd) else none

/-- The response is deleted if its request has a negative id. -/
def process (env : ServerEnv) : Option Sys :=
  match s.work with
  | [] => none
  | a :: work =>
    if s.pushing = none ∧ env.HEADER_VERSION = S.HEADER_VERSION then
      let processed := env.processFrame a.uid a.frame
      some { s with
        work := work
        handled := s.handled ++ [⟨a, env⟩]
        pushing := if processed.ret < 0 then none else some ⟨processed.worker a.fd, some ⟨a, env⟩⟩ }
    else none

/-! ### `respQueue` -/

/-- The entry counts for the connection that has its descriptor. -/
def note (e : Entry) : Sys :=
  match s.conns e.worker.remote with
  | none => s
  | some c => s.update c { s.peers c with queued := (s.peers c).queued ++ [e] }

/-- `push` waits while the queue is full. -/
def enqueue (e : Entry) : Option Sys :=
  if s.respQueue.length < Rqueue.bound 0 then
    some { s.note e with respQueue := s.respQueue ++ [e] }
  else none

def push : Option Sys :=
  s.pushing.bind fun e => { s with pushing := none }.enqueue e

/-- `findFdByUid`, `processSend` and `push` -/
def notify (env : ServerEnv) (uid : JInt) (funcid : BitVec 32) (data : List UInt8) : Option Sys :=
  (s.mapUid.findKey? uid).bind fun fd =>
    if env.HEADER_VERSION = S.HEADER_VERSION ∧ funcid.toNat ≤ 65535 ∧
        data.length + AMCRespHeaderV2.size < 2 ^ 31 then
      s.enqueue ⟨env.processSend funcid fd (some data) (BitVec.ofNat 32 data.length), none⟩
    else none

/-- The thread makes its next pack when it has pushed the one before. -/
def respond (p : Ptr) : Option Sys :=
  match s.respQueue with
  | [] => none
  | e :: queue =>
    if s.socket.made = [] then
      (LocalSocket.step s.socket (.sendData p e.worker.remote e.bytes)).map fun socket =>
        { s with socket := socket, respQueue := queue }
    else none

def pushPack (p : Ptr) : Option Sys :=
  (LocalSocket.step s.socket (.push p)).map fun socket => { s with socket := socket }

end Sys

def step (s : Sys) : Action → Option Sys
  | .sendReq c p r => s.sendReq S c p r
  | .client c a => s.client c a
  | .take c n beyond => s.take c n beyond
  | .lose c => s.lose c
  | .server a => s.server a
  | .accept r => s.accept S r
  | .recv fd n beyond => s.recv S fd n beyond
  | .hangUp fd => s.hangUp fd
  | .process env => s.process S env
  | .push => s.push
  | .notify env uid funcid data => s.notify S env uid funcid data
  | .respond p => s.respond p
  | .pushPack p => s.pushPack p

end ClientServer

end Hardcoder
