import Hardcoder.UdpPkg
import Hardcoder.Lib.SortedMap
import Mathlib.Order.Lattice
import Mathlib.Data.Fintype.Basic
import Mathlib.Logic.Function.Basic

/-! The UDP transport (udp.h): senders with a window of five packets, receivers that
put sessions together again, and the event loop with its timer list. A timer is named
by the `TimeoutEvent` it points to; a time or the result of a system call is the next
reading of the environment. What happened is recorded beside the fields of the class. -/

namespace Hardcoder.UDP
open Stream
set_option autoImplicit false

/-- `sockaddr_in`; `sin_family` is always `AF_INET`. -/
structure SockAddr where
  sin_port : BitVec 16
  s_addr : BitVec 32
deriving DecidableEq, Repr

def sockaddrToint64 (addr : SockAddr) : Nat := addr.sin_port.toNat * 2 ^ 32 + addr.s_addr.toNat

theorem sockaddrToint64_injective : Function.Injective sockaddrToint64 := by
  rintro ⟨port, a⟩ ⟨port', a'⟩ h
  have ha := a.isLt
  have ha' := a'.isLt
  simp only [sockaddrToint64] at h
  have hport : port = port' := BitVec.eq_of_toNat_eq (by omega)
  have haddr : a = a' := BitVec.eq_of_toNat_eq (by omega)
  rw [hport, haddr]

/-- The maps are keyed by `sockaddrToint64`, which tells addresses apart. -/
instance : LinearOrder SockAddr := LinearOrder.lift' sockaddrToint64 sockaddrToint64_injective

inductive Status where
  | SYN_SENT
  | OPENING
  | OPEN
  | FIN_SENT
deriving DecidableEq, Repr

structure TimeoutEvent where
  timeout : Int
  tryCount : Nat
  toaddr : SockAddr
  udpPkg : Option UdpPkg
deriving DecidableEq, Repr

/-- `TimeoutEvent()` -/
def TimeoutEvent.new : TimeoutEvent := ⟨0, 0, ⟨0, 0⟩, none⟩

abbrev Slot := Fin CONST_WINDOW

structure Sender where
  toaddr : SockAddr
  status : Status
  seq : BitVec 32
  finTimeoutEvent : TimeoutEvent
  synTimeoutEvent : TimeoutEvent
  dataWindow : Slot → TimeoutEvent
  dataQueue : List UdpPkg

/-- Fill count and buffer of a session. `alloc` is the size of the buffer, `buf` what
was copied into it, one fragment behind the other. -/
structure Session where
  first : BitVec 32
  buf : List UInt8
  alloc : Nat
deriving DecidableEq, Repr

structure Receiver where
  fromaddr : SockAddr
  status : Status
  expectedSeq : BitVec 32
  sessionMap : SortedMap Int Session

/-- `new uint8_t[len]` holds the whole message; `send` takes an `int` length. -/
structure SendPack where
  toAddr : SockAddr
  sessionid : BitVec 64
  data : List UInt8
  len_lt : data.length < 2 ^ 31
deriving DecidableEq

/-- The `TimeoutEvent` objects inside the senders. -/
inductive EventId where
  | fin (addr : SockAddr)
  | syn (addr : SockAddr)
  | slot (addr : SockAddr) (i : Slot)
deriving DecidableEq

/-- The peer of the sender that holds the event. -/
def EventId.addr : EventId → SockAddr
  | .fin addr => addr
  | .syn addr => addr
  | .slot addr _ => addr

/-- The calls of `recvEvent`. -/
inductive Raised where
  | data (addr : SockAddr) (sessionid : BitVec 64) (data : List UInt8)
  | sessionFinish (addr : SockAddr) (sessionid : BitVec 64)
  | timeout (addr : SockAddr) (sessionid : BitVec 64)
deriving DecidableEq

/-- How far into the struct, which holds `recvRet` received bytes, the check and the
copy read, and how far into the session's buffer the copy writes. -/
inductive Access where
  | crc (pkgLen recvRet : Nat)
  | copy (pkgLen recvRet writeEnd alloc : Nat)
deriving DecidableEq, Repr

structure Env where
  m_timeoutms : Int
  /-- readings of `getMillisecond` -/
  clock : Nat → Int
  /-- results of `sendto` -/
  sendto : Nat → Int

structure Udp where
  m_mapSender : SortedMap SockAddr Sender
  m_mapReceiver : SortedMap SockAddr Receiver
  m_eventTimerList : List EventId
  sendQueue : List SendPack
  /-- the loop has not returned -/
  running : Bool
  /-- readings of the environment so far -/
  ticks : Nat
  /-- datagrams handed to the network -/
  sent : List (SockAddr × List UInt8)
  /-- messages popped from `sendQueue` -/
  taken : List SendPack
  raised : List Raised
  accesses : List Access

def Udp.new : Udp := ⟨.empty, .empty, [], [], true, 0, [], [], [], []⟩

/-! ### Windows and fragments -/

/-- The packets of a window, slot by slot. -/
abbrev Window := Slot → Option UdpPkg

def getWindowBySeq (window : Window) (seq : BitVec 32) : Option Slot :=
  (List.finRange CONST_WINDOW).find? fun i => (window i).any fun p => p.seq = seq

/-- `INT_MAX` is the value for a window without packets. -/
def minSeq (window : Window) : BitVec 32 :=
  (List.finRange CONST_WINDOW).foldl
    (fun m i => ((window i).map fun p => if p.seq < m then p.seq else m).getD m) 0x7fffffff

/-- The last free slot. -/
def emptyIndex (window : Window) : Option Slot :=
  (List.finRange CONST_WINDOW).reverse.find? fun i => (window i).isNone

def checkEmptyWindow (window : Window) (expectSeq : BitVec 32) : Option Slot :=
  match emptyIndex window with
  | none => none
  | some i =>
    if minSeq window ≠ 0x7fffffff ∧
        (minSeq window + BitVec.ofNat 32 CONST_WINDOW - 1).toInt < expectSeq.toInt then none
    else some i

namespace Sender

def packets (ss : Sender) : Window := fun i => (ss.dataWindow i).udpPkg

def event (ss : Sender) : EventId → TimeoutEvent
  | .fin _ => ss.finTimeoutEvent
  | .syn _ => ss.synTimeoutEvent
  | .slot _ i => ss.dataWindow i

def updateEvent (ss : Sender) (e : EventId) (f : TimeoutEvent → TimeoutEvent) : Sender :=
  match e with
  | .fin _ => { ss with finTimeoutEvent := f ss.finTimeoutEvent }
  | .syn _ => { ss with synTimeoutEvent := f ss.synTimeoutEvent }
  | .slot _ i =>
    { ss with dataWindow := Function.update ss.dataWindow i (f (ss.dataWindow i)) }

/-- The packet at the front of the queue gets the next number and a slot. -/
def number (ss : Sender) (i : Slot) (pkg : UdpPkg)
    (queue : List UdpPkg) : Sender :=
  { ss with
    seq := ss.seq + 1
    dataQueue := queue
    dataWindow := Function.update ss.dataWindow i
      { ss.dataWindow i with
        tryCount := 0, udpPkg := some (pkg.stamp PACKAGE_DATA (ss.seq + 1)) } }

end Sender

namespace SendPack

/-- The loop of `checkSendQueue` that cuts the message, from `offset` on. -/
def cut (pack : SendPack) : Nat → Nat → List UdpPkg
  | 0, _ => []
  | fuel + 1, offset =>
    if offset < pack.data.length then
      let datalen :=
        if pack.data.length - offset < CONST_MAXPKTSIZE then pack.data.length - offset
        else CONST_MAXPKTSIZE
      { UdpPkg.new with
        sessionid := pack.sessionid
        totallen := BitVec.ofNat 32 pack.data.length
        offset := BitVec.ofNat 32 offset
        datalen := BitVec.ofNat 16 datalen
        data := (pack.data.drop offset).take datalen } :: cut pack fuel (offset + datalen)
    else []

def fragments (pack : SendPack) : List UdpPkg := pack.cut pack.data.length 0

end SendPack

namespace Udp
variable (env : Env)

/-! ### Timers -/

def event (u : Udp) (e : EventId) : TimeoutEvent :=
  ((u.m_mapSender.get? e.addr).map fun ss => ss.event e).getD .new

def modifySender (u : Udp) (addr : SockAddr) (f : Sender → Sender) : Udp :=
  match u.m_mapSender.get? addr with
  | none => u
  | some ss => { u with m_mapSender := u.m_mapSender.set addr (f ss) }

def modifyEvent (u : Udp) (e : EventId) (f : TimeoutEvent → TimeoutEvent) : Udp :=
  u.modifySender e.addr fun ss => ss.updateEvent e f

/-- Before the first event with a later timeout. -/
def insertEvent (timeout : EventId → Int) (e : EventId) : List EventId → List EventId
  | [] => [e]
  | x :: xs => if timeout e < timeout x then e :: x :: xs else x :: insertEvent timeout e xs

def addTimeoutEvent (u : Udp) (e : EventId) : Udp :=
  { u with m_eventTimerList := insertEvent (fun x => (u.event x).timeout) e u.m_eventTimerList }

def deleteTimeoutEvent (u : Udp) (e : EventId) : Udp :=
  { u with m_eventTimerList := u.m_eventTimerList.erase e }

/-! ### Sending -/

/-- The timer of a packet that is not an ACK. -/
def eventOf (ss : Sender) (addr : SockAddr) (pkg : UdpPkg) : Except Int EventId :=
  if pkg.type = PACKAGE_SYN then .ok (.syn addr)
  else if pkg.type = PACKAGE_FIN then .ok (.fin addr)
  else if pkg.type = PACKAGE_DATA then
    match getWindowBySeq ss.packets pkg.seq with
    | none => .error (-2)
    | some i => .ok (.slot addr i)
  else .error (-3)

/-- `sendto` -/
def transmit (u : Udp) (addr : SockAddr) (pkg : UdpPkg) : Udp × Int :=
  let sendRet := env.sendto u.ticks
  ({ u with
      ticks := u.ticks + 1
      sent := if 0 ≤ sendRet then u.sent ++ [(addr, pkg.bytes)] else u.sent }, sendRet)

/-- Sets the event's address and time and puts it into the timer list. -/
def schedule (u : Udp) (addr : SockAddr) (e : EventId) : Udp :=
  let timeout := env.clock u.ticks + env.m_timeoutms
  let u := { u with ticks := u.ticks + 1 }
  (u.modifyEvent e fun ev => { ev with toaddr := addr, timeout := timeout }).addTimeoutEvent e

/-- The caller has stamped the packet, also where a sender keeps it. -/
def sendPackage (u : Udp) (addr : SockAddr) (pkg : UdpPkg) : Udp × Int :=
  let (u, sendRet) := u.transmit env addr pkg
  if pkg.type = PACKAGE_ACK then (u, sendRet)
  else
    match u.m_mapSender.get? addr with
    | none => (u, -1)
    | some ss =>
      match eventOf ss addr pkg with
      | .error ret => (u, ret)
      | .ok e => (u.schedule env addr e, 0)

/-- `new Sender()` with the fields `getSender` sets -/
def newSender (addr : SockAddr) : Sender where
  toaddr := addr
  status := .SYN_SENT
  seq := 100000
  finTimeoutEvent := .new
  synTimeoutEvent := { TimeoutEvent.new with udpPkg := some (UdpPkg.new.stamp PACKAGE_SYN 100000) }
  dataWindow := fun _ => .new
  dataQueue := []

def getSender (u : Udp) (addr : SockAddr) : Udp :=
  match u.m_mapSender.get? addr with
  | some _ => u
  | none =>
    let u := { u with m_mapSender := u.m_mapSender.set addr (newSender addr) }
    (u.sendPackage env addr (UdpPkg.new.stamp PACKAGE_SYN 100000)).1

/-- Takes the message at the front of `sendQueue` unless fragments wait for its receiver. -/
def takeFront (u : Udp) : Udp :=
  match u.sendQueue with
  | [] => u
  | pack :: rest =>
    let u := u.getSender env pack.toAddr
    if (u.m_mapSender.get? pack.toAddr).any fun ss => ss.dataQueue = [] then
      { u.modifySender pack.toAddr fun ss => { ss with dataQueue := pack.fragments } with
        sendQueue := rest, taken := u.taken ++ [pack] }
    else u

/-- The inner loop of `checkSendQueue` for one sender. -/
def fillWindow (addr : SockAddr) : Nat → Udp → Udp
  | 0, u => u
  | fuel + 1, u =>
    match u.m_mapSender.get? addr with
    | none => u
    | some ss =>
      match ss.dataQueue, checkEmptyWindow ss.packets (ss.seq + 1) with
      | pkg :: queue, some i =>
        let u := { u with m_mapSender := u.m_mapSender.set addr (ss.number i pkg queue) }
        fillWindow addr fuel (u.sendPackage env ss.toaddr (pkg.stamp PACKAGE_DATA (ss.seq + 1))).1
      | _, _ => u

def queueLength (u : Udp) (addr : SockAddr) : Nat :=
  ((u.m_mapSender.get? addr).map fun ss => ss.dataQueue.length).getD 0

def fillWindows (u : Udp) : Udp :=
  u.m_mapSender.keys.foldl (fun u addr => fillWindow env addr (u.queueLength addr) u) u

def checkSendQueue (u : Udp) : Udp := fillWindows env (takeFront env u)

/-- The checks of `processTimeout`: the event is the one its packet's type and number
lead to. -/
def isCurrent (ss : Sender) (ev : TimeoutEvent) (pkg : UdpPkg) (e : EventId) : Bool :=
  if pkg.type = PACKAGE_SYN then e = .syn ev.toaddr
  else if pkg.type = PACKAGE_FIN then e = .fin ev.toaddr
  else if pkg.type = PACKAGE_DATA then
    (getWindowBySeq ss.packets pkg.seq).map (.slot ev.toaddr) = some e
  else true

/-- A null `udpPkg` would end the process; the result is the loop's end. -/
def processTimeout (u : Udp) (e : EventId) : Udp × Int :=
  let ev := u.event e
  match u.m_mapSender.get? ev.toaddr, ev.udpPkg with
  | some ss, some pkg =>
    if isCurrent ss ev pkg e = false then (u, -1)
    else if CONST_MAXRETRANS ≤ ev.tryCount then
      ({ u with raised := u.raised ++ [.timeout ev.toaddr pkg.sessionid] }, 0)
    else
      let pkg := pkg.stamp pkg.type pkg.seq
      let u := u.modifyEvent e fun ev => { ev with tryCount := ev.tryCount + 1, udpPkg := some pkg }
      u.sendPackage env ev.toaddr pkg
  | _, _ => (u, -1)

/-! ### Receiving -/

/-- What `dataRecv` does to the receiver, the message it raises and its `memcpy`. -/
structure Reassembled where
  rs : Receiver
  message : Option (List UInt8)
  access : Option Access

/-- The session the fragment belongs to, a new one for a first fragment; `none` when its
offset is not the one expected. -/
def sessionOf (udpPkg : UdpPkg) (rs : Receiver) : Option Session :=
  match rs.sessionMap.get? udpPkg.sessionid.toInt with
  | none => if udpPkg.offset ≠ 0 then none else some ⟨0, [], udpPkg.totallen.toNat⟩
  | some s => if udpPkg.offset ≠ s.first then none else some s

def dataRecv (udpPkg : UdpPkg) (recvRet : Nat) (rs : Receiver) : Reassembled :=
  match sessionOf udpPkg rs with
  | none => ⟨rs, none, none⟩
  | some s =>
    let access := .copy udpPkg.pkgLen recvRet (s.first.toNat + udpPkg.datalen.toNat) s.alloc
    let s := { s with
      buf := s.buf ++ udpPkg.data.take udpPkg.datalen.toNat
      first := udpPkg.offset + udpPkg.datalen.setWidth 32 }
    if s.first = udpPkg.totallen then
      ⟨{ rs with sessionMap := rs.sessionMap.erase udpPkg.sessionid.toInt },
        some (s.buf.take s.first.toNat), some access⟩
    else ⟨{ rs with sessionMap := rs.sessionMap.set udpPkg.sessionid.toInt s }, none, some access⟩

def cleanReceiver (u : Udp) (rs : Receiver) : Udp :=
  { u with m_mapReceiver := u.m_mapReceiver.erase rs.fromaddr }

/-- `new Receiver()` with `fromaddr` -/
def newReceiver (addr : SockAddr) : Receiver := ⟨addr, .SYN_SENT, 0, .empty⟩

def setReceiver (u : Udp) (addr : SockAddr) (rs : Receiver) : Udp :=
  { u with m_mapReceiver := u.m_mapReceiver.set addr rs }

/-- Answers with the received packet, which keeps its fields but for the ones given. -/
def sendAck (u : Udp) (sender : SockAddr) (udpPkg : UdpPkg) : Udp × Int :=
  u.sendPackage env sender (udpPkg.stamp PACKAGE_ACK udpPkg.seq)

def receiveSyn (u : Udp) (sender : SockAddr) (udpPkg : UdpPkg) : Udp × Int :=
  let rs := u.m_mapReceiver.get? sender
  let (u, rs) :=
    match rs with
    | some rs => if rs.status ≠ Status.OPENING then (u.cleanReceiver rs, none) else (u, some rs)
    | none => (u, none)
  let rs := rs.getD (newReceiver sender)
  let u := u.setReceiver sender { rs with status := .OPENING, expectedSeq := udpPkg.seq + 1 }
  u.sendAck env sender { udpPkg with datalen := 0 }

def receiveData (u : Udp) (sender : SockAddr) (recvRet : Nat) (udpPkg : UdpPkg) : Udp × Int :=
  match u.m_mapReceiver.get? sender with
  | none => (u, 0)
  | some rs =>
    if rs.status ≠ .OPENING ∧ rs.status ≠ .OPEN then (u, 0)
    else if udpPkg.seq < rs.expectedSeq - BitVec.ofNat 32 CONST_WINDOW ∨ rs.expectedSeq < udpPkg.seq
    then (u, 0)
    else
      let u :=
        if udpPkg.seq = rs.expectedSeq then
          let rs := { rs with status := .OPEN, expectedSeq := udpPkg.seq + 1 }
          let out := dataRecv udpPkg recvRet rs
          { u.setReceiver sender out.rs with
            raised := u.raised ++ (out.message.map fun m =>
              Raised.data out.rs.fromaddr udpPkg.sessionid m).toList
            accesses := u.accesses ++ out.access.toList }
        else u
      u.sendAck env sender
        { udpPkg with offset := udpPkg.offset + udpPkg.datalen.setWidth 32, datalen := 0 }

def receiveFin (u : Udp) (sender : SockAddr) (udpPkg : UdpPkg) : Udp × Int :=
  match u.m_mapReceiver.get? sender with
  | none => u.sendAck env sender udpPkg
  | some rs =>
    if udpPkg.seq ≠ rs.expectedSeq then (u, 0)
    else
      let (u, ret) := u.sendAck env sender { udpPkg with datalen := 0 }
      (u.cleanReceiver rs, ret)

def receiveAck (u : Udp) (sender : SockAddr) (udpPkg : UdpPkg) : Udp :=
  match u.m_mapSender.get? sender with
  | none => u
  | some ss =>
    match ss.status with
    | .FIN_SENT =>
      if udpPkg.seq ≠ ss.seq then u
      else
        let u := u.deleteTimeoutEvent (.fin sender)
        { u with m_mapSender := u.m_mapSender.erase sender }
    | .SYN_SENT =>
      if ss.synTimeoutEvent.udpPkg.any fun p => p.seq = udpPkg.seq then
        (u.deleteTimeoutEvent (.syn sender)).modifySender sender fun ss =>
          { ss with status := .OPEN }
      else u
    | .OPEN =>
      match getWindowBySeq ss.packets udpPkg.seq with
      | none => u
      | some i =>
        let u := (u.deleteTimeoutEvent (.slot sender i)).modifyEvent (.slot sender i) fun ev =>
          { ev with udpPkg := none }
        if udpPkg.totallen = udpPkg.offset then
          { u with raised := u.raised ++ [.sessionFinish sender udpPkg.sessionid] }
        else u
    | .OPENING => u

/-- `d` is the datagram from `sender` and what lies behind it once it is received. -/
def processReceive (u : Udp) (sender : SockAddr) (d : Delivery UInt8) : Udp × Int :=
  let d : Delivery UInt8 := ⟨d.bytes.take UdpPkg.size, d.beyond⟩
  let udpPkg := UdpPkg.decode d
  let recvRet := d.bytes.length
  if recvRet = 0 then (u, 0)
  else
    let u := { u with accesses := u.accesses ++ [.crc udpPkg.pkgLen recvRet] }
    if udpPkg.crc ≠ udpPkg.datacrc then (u, 0)
    else if udpPkg.type = PACKAGE_SYN then u.receiveSyn env sender udpPkg
    else if udpPkg.type = PACKAGE_DATA then u.receiveData env sender recvRet udpPkg
    else if udpPkg.type = PACKAGE_FIN then u.receiveFin env sender udpPkg
    else if udpPkg.type = PACKAGE_ACK then (u.receiveAck sender udpPkg, 0)
    else (u, 0)

/-! ### The event loop -/

/-- The loop down to the timer check: the state after `checkSendQueue` and the event
that is due, if one is. -/
def loopHead (u : Udp) : Udp × Option EventId :=
  let start := env.clock u.ticks
  let u := checkSendQueue env { u with ticks := u.ticks + 1 }
  (u, u.m_eventTimerList.head?.filter fun e => (u.event e).timeout - start ≤ 0)

/-- The loop returns when a handler's result is negative. -/
def finish (r : Udp × Int) : Udp := if r.2 < 0 then { r.1 with running := false } else r.1

inductive Action where
  /-- `send`, from any thread -/
  | send (pack : SendPack)
  /-- a pass of the loop in which no datagram is received -/
  | wake
  /-- a pass that gets to `processReceive` -/
  | receive (sender : SockAddr) (d : Delivery UInt8)

/-- `rqueue<SendPack *, 10>` -/
def queueMax : Nat := 10

/-- The node of the event, the first in the list, is erased afterwards. -/
def fire (u : Udp) (e : EventId) : Udp :=
  let r := u.processTimeout env e
  finish (r.1.deleteTimeoutEvent e, r.2)

def step (u : Udp) : Action → Option Udp
  | .send pack =>
    if u.sendQueue.length < queueMax then some { u with sendQueue := u.sendQueue ++ [pack] }
    else none
  | .wake =>
    if u.running then
      let head := u.loopHead env
      some ((head.2.map (head.1.fire env)).getD head.1)
    else none
  | .receive sender d =>
    if u.running then
      let head := u.loopHead env
      if head.2.isSome then none else some (finish (head.1.processReceive env sender d))
    else none

end Udp

end Hardcoder.UDP
