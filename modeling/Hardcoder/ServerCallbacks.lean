import Mathlib.Data.List.Nodup
import Hardcoder.Lib.SortedMap
import Hardcoder.LocalSocket
import Hardcoder.ServerResponses

/-! The system callbacks of a local-socket server: `ManufacturerCoder` (server.cpp) keeps
the uids that have registered, `LocalSocketServer::onCallback` looks up a descriptor for
each of them in `mapUid`. -/

namespace Hardcoder
open Runs
set_option autoImplicit false

structure ManufacturerCoder where
  systemEventCallbackList : List JInt
  anrCallbackUidList : List JInt
  cbQueue : List amc.DataCallback
deriving DecidableEq, Repr

namespace ManufacturerCoder

def new : ManufacturerCoder := ⟨[], [], []⟩

/-- `push_back`, unless `find` has found the uid. -/
def pushUid (cbL : List JInt) (uid : JInt) : List JInt := if uid ∈ cbL then cbL else cbL ++ [uid]

/-- What a handler does to the lists. -/
def handle (m : ManufacturerCoder) : HardCoderCall → ManufacturerCoder
  | .registerAnrCallback uid _ _ =>
    { m with anrCallbackUidList := pushUid m.anrCallbackUidList uid }
  | .registerSystemEventCallback uid _ _ =>
    { m with systemEventCallbackList := pushUid m.systemEventCallbackList uid }
  | _ => m

/-- `snprintf(buffer, sizeof(buffer), "%d", eventCode)` -/
def decimal (eventCode : JInt) : StdString :=
  (toString eventCode.toInt).toList.map fun c => UInt8.ofNat c.toNat

def onEvent (m : ManufacturerCoder) (eventCode : JInt) : ManufacturerCoder :=
  { m with cbQueue := m.cbQueue ++ [⟨REGISTER_CALLBACK_TYPE_SYSTEM_EVENT, decimal eventCode⟩] }

def onANR (m : ManufacturerCoder) (log : StdString) : ManufacturerCoder :=
  { m with cbQueue := m.cbQueue ++ [⟨REGISTER_CALLBACK_TYPE_ANR, log⟩] }

/-- The list `callbackThread` goes through for a notification of this type. -/
def callbackList (m : ManufacturerCoder) (type : JInt) : List JInt :=
  if type = 1 then m.systemEventCallbackList
  else if type = 2 then m.anrCallbackUidList
  else []

def callbackFuncid (type : JInt) : BitVec 32 :=
  if type = 1 then FUNC_REG_SYSTEM_EVENT_CALLBACK else FUNC_REG_ANR_CALLBACK

theorem nodup_pushUid {cbL : List JInt} (h : cbL.Nodup) (uid : JInt) : (pushUid cbL uid).Nodup := by
  unfold pushUid
  split
  · exact h
  · rename_i hnot
    exact List.nodup_append.mpr ⟨h, List.pairwise_singleton _ _, fun a ha b hb hab =>
      hnot (List.mem_singleton.mp hb ▸ hab ▸ ha)⟩

end ManufacturerCoder

/-- The type of the notifications a handler registers for. -/
def HardCoderCall.callbackType : HardCoderCall → Option JInt
  | .registerAnrCallback _ _ _ => some REGISTER_CALLBACK_TYPE_ANR
  | .registerSystemEventCallback _ _ _ => some REGISTER_CALLBACK_TYPE_SYSTEM_EVENT
  | _ => none

/-- `ServerDataWorker::processSend` -/
def ServerEnv.processSend {T : Type} (env : ServerEnv) (funcid : BitVec 32) (r : T)
    (data : Option (List UInt8)) (len : BitVec 32) : ServerDataWorker T :=
  let pack := genRespPack env.HEADER_VERSION env.heap env.ts funcid 0 0 data len
  ⟨r, pack.outPack, pack.outLen⟩

namespace CallbackServer
open LocalSocketServer

/-- An open connection: its number, and the uid the kernel names for its peer. -/
structure Peer where
  conn : Conn
  uid : JInt
deriving DecidableEq, Repr

structure Sys where
  /-- the open client descriptors -/
  conns : Fd → Option Peer
  accepted : Nat
  mapUid : SortedMap Fd JInt
  coder : ManufacturerCoder
  respQueue : List (ServerDataWorker Fd)
  /-- the registrations that were received, by connection and type -/
  registered : List (Conn × JInt)

def init : Sys where
  conns := fun _ => none
  accepted := 0
  mapUid := .empty
  coder := .new
  respQueue := []
  registered := []

inductive Action where
  | accept (fd : Fd) (uid : JInt)
  /-- by whatever path; `mapUid` keeps its entry -/
  | close (fd : Fd)
  /-- a request assembled from what was received on `fd` -/
  | request (env : ServerEnv) (fd : Fd) (f : ReqFrame UInt8)
  | onEvent (eventCode : JInt)
  | onANR (log : StdString)
  /-- `callbackThread` takes the first notification -/
  | dispatch (env : ServerEnv)
  /-- `respQueue.pop()` -/
  | popResp

namespace Sys

/-- `LocalSocket::findFdByUid` -/
def findFdByUid (s : Sys) (uid : JInt) : Option Fd := s.mapUid.findKey? uid

/-- `LocalSocketServer::onCallback` -/
def onCallback (s : Sys) (env : ServerEnv) (uid : JInt) (funcid : BitVec 32) (data : List UInt8) :
    Option (ServerDataWorker Fd) :=
  (s.findFdByUid uid).map fun fd =>
    env.processSend funcid fd (some data) (BitVec.ofNat 32 data.length)

/-- What `callbackThread` pushes for a notification, with the uid each push is for. -/
def callbacks (s : Sys) (env : ServerEnv) (codec : Codec amc.DataCallback)
    (dataCallback : amc.DataCallback) : List (JInt × ServerDataWorker Fd) :=
  (s.coder.callbackList dataCallback.type).filterMap fun uid =>
    (s.onCallback env uid (ManufacturerCoder.callbackFuncid dataCallback.type)
      (codec.SerializeToArray dataCallback)).map fun pp => (uid, pp)

end Sys

def step (codec : Codec amc.DataCallback) (s : Sys) : Action → Option Sys
  | .accept fd uid =>
    if s.conns fd ≠ none then none
    else some { s with
      conns := Function.update s.conns fd (some ⟨s.accepted, uid⟩)
      accepted := s.accepted + 1
      mapUid := s.mapUid.set fd uid }
  | .close fd =>
    if s.conns fd = none then none
    else some { s with conns := Function.update s.conns fd none }
  | .request env fd f =>
    (s.conns fd).map fun peer =>
      let p := env.processFrame ((s.mapUid.get? fd).getD 0) f
      { s with
        coder := (p.call.map s.coder.handle).getD s.coder
        respQueue := s.respQueue ++ p.pushed fd
        registered := s.registered ++
          (p.call.bind (·.callbackType)).toList.map fun type => (peer.conn, type) }
  | .onEvent eventCode => some { s with coder := s.coder.onEvent eventCode }
  | .onANR log => some { s with coder := s.coder.onANR log }
  | .dispatch env =>
    match s.coder.cbQueue with
    | [] => none
    | dataCallback :: cbQueue => some { s with
      coder := { s.coder with cbQueue := cbQueue }
      respQueue := s.respQueue ++ (s.callbacks env codec dataCallback).map Prod.snd }
  | .popResp =>
    match s.respQueue with
    | [] => none
    | _ :: queue => some { s with respQueue := queue }

/-! ### What a step leaves -/

section Steps
variable {s s' : Sys} {codec : Codec amc.DataCallback} {fd : Fd} {uid : JInt} {env : ServerEnv}

theorem step_accept_eq (h : step codec s (.accept fd uid) = some s') : s' = { s with
    conns := Function.update s.conns fd (some ⟨s.accepted, uid⟩)
    accepted := s.accepted + 1
    mapUid := s.mapUid.set fd uid } := by
  simp only [step] at h
  split at h
  · cases h
  · exact (Option.some.inj h).symm

theorem step_close_eq (h : step codec s (.close fd) = some s') :
    s' = { s with conns := Function.update s.conns fd none } := by
  simp only [step] at h
  split at h
  · cases h
  · exact (Option.some.inj h).symm

theorem step_dispatch_eq (h : step codec s (.dispatch env) = some s') :
    ∃ cbQueue respQueue, s' = { s with
      coder := { s.coder with cbQueue := cbQueue }
      respQueue := respQueue } := by
  simp only [step] at h
  split at h
  · cases h
  · exact ⟨_, _, (Option.some.inj h).symm⟩

theorem step_popResp_eq (h : step codec s .popResp = some s') :
    ∃ respQueue, s' = { s with respQueue := respQueue } := by
  simp only [step] at h
  split at h
  · cases h
  · exact ⟨_, (Option.some.inj h).symm⟩

end Steps

/-- Every open connection that has registered gets exactly one of the pushes, and every
push goes to an open connection of the uid it is for. -/
structure Routed (s : Sys) (type : JInt) (cbs : List (JInt × ServerDataWorker Fd)) : Prop where
  each : ∀ fd peer, s.conns fd = some peer → (peer.conn, type) ∈ s.registered →
    (cbs.map fun cb => cb.2.remote).count fd = 1
  only : ∀ cb ∈ cbs, ∃ peer, s.conns cb.2.remote = some peer ∧ peer.uid = cb.1

/-- `fd` is the lowest descriptor a connection of this uid was ever the last one on. -/
def Sys.Lowest (s : Sys) (uid : JInt) (fd : Fd) : Prop :=
  s.mapUid.get? fd = some uid ∧ ∀ i < fd, s.mapUid.get? i ≠ some uid

/-- The lowest descriptor of each registered uid is open; an open connection that has
registered has the lowest descriptor of its uid, and its uid is registered. -/
structure Clear (s : Sys) (type : JInt) : Prop where
  lowest_open : ∀ uid ∈ s.coder.callbackList type, ∀ fd, s.Lowest uid fd → s.conns fd ≠ none
  registered_lowest : ∀ fd peer, s.conns fd = some peer → (peer.conn, type) ∈ s.registered →
    peer.uid ∈ s.coder.callbackList type ∧ s.Lowest peer.uid fd

/-- The notification the action dispatches, if any, is routed as it should be. -/
def Routes (codec : Codec amc.DataCallback) (s : Sys) (a : Action) : Prop :=
  ∀ env dataCallback cbQueue, a = .dispatch env → s.coder.cbQueue = dataCallback :: cbQueue →
    Routed s dataCallback.type (s.callbacks env codec dataCallback)

def ClearAt (s : Sys) (a : Action) : Prop :=
  ∀ env dataCallback cbQueue, a = .dispatch env → s.coder.cbQueue = dataCallback :: cbQueue →
    Clear s dataCallback.type

/-- Open connections are in `mapUid` with their uids, and no list names a uid twice. -/
structure Inv (s : Sys) : Prop where
  sorted : s.mapUid.Sorted
  uids : ∀ {fd peer}, s.conns fd = some peer → s.mapUid.get? fd = some peer.uid
  events : s.coder.systemEventCallbackList.Nodup
  anrs : s.coder.anrCallbackUidList.Nodup

theorem inv_init : Inv init :=
  ⟨SortedMap.sorted_empty, fun h => (by cases h), List.nodup_nil, List.nodup_nil⟩

namespace Inv
variable {s s' : Sys} {codec : Codec amc.DataCallback} {a : Action}

theorem nodup (h : Inv s) (type : JInt) : (s.coder.callbackList type).Nodup := by
  unfold ManufacturerCoder.callbackList
  split
  · exact h.events
  split
  · exact h.anrs
  · exact List.nodup_nil

theorem handle (h : Inv s) (call : HardCoderCall) :
    (s.coder.handle call).systemEventCallbackList.Nodup ∧
      (s.coder.handle call).anrCallbackUidList.Nodup := by
  cases call with
  | registerAnrCallback => exact ⟨h.events, ManufacturerCoder.nodup_pushUid h.anrs _⟩
  | registerSystemEventCallback => exact ⟨ManufacturerCoder.nodup_pushUid h.events _, h.anrs⟩
  | _ => exact ⟨h.events, h.anrs⟩

theorem step (h : Inv s) (hstep : CallbackServer.step codec s a = some s') : Inv s' := by
  cases a with
  | accept fd uid =>
    obtain rfl := step_accept_eq hstep
    refine ⟨h.sorted.set fd uid, fun {i peer} hi => ?_, h.events, h.anrs⟩
    dsimp only at hi ⊢
    by_cases hfd : i = fd
    · subst hfd
      rw [Function.update_self] at hi
      obtain rfl := Option.some.inj hi
      exact SortedMap.get?_set_self _ _ _
    · rw [Function.update_of_ne hfd] at hi
      rw [SortedMap.get?_set_of_ne _ hfd]
      exact h.uids hi
  | close fd =>
    obtain rfl := step_close_eq hstep
    refine ⟨h.sorted, fun {i peer} hi => ?_, h.events, h.anrs⟩
    dsimp only at hi ⊢
    by_cases hfd : i = fd
    · rw [hfd, Function.update_self] at hi
      cases hi
    · rw [Function.update_of_ne hfd] at hi
      exact h.uids hi
  | request env fd f =>
    obtain ⟨peer, -, rfl⟩ := Option.map_eq_some_iff.mp hstep
    dsimp only
    cases (env.processFrame ((s.mapUid.get? fd).getD 0) f).call with
    | none => exact ⟨h.sorted, h.uids, h.events, h.anrs⟩
    | some call => exact ⟨h.sorted, h.uids, (h.handle call).1, (h.handle call).2⟩
  | onEvent eventCode =>
    obtain rfl := Option.some.inj hstep
    exact ⟨h.sorted, h.uids, h.events, h.anrs⟩
  | onANR log =>
    obtain rfl := Option.some.inj hstep
    exact ⟨h.sorted, h.uids, h.events, h.anrs⟩
  | dispatch env =>
    obtain ⟨cbQueue, respQueue, rfl⟩ := step_dispatch_eq hstep
    exact ⟨h.sorted, h.uids, h.events, h.anrs⟩
  | popResp =>
    obtain ⟨respQueue, rfl⟩ := step_popResp_eq hstep
    exact ⟨h.sorted, h.uids, h.events, h.anrs⟩

end Inv

section Routing
variable {s : Sys} {codec : Codec amc.DataCallback} {env : ServerEnv}
  {dataCallback : amc.DataCallback}

theorem findFdByUid_eq_some_iff (h : Inv s) {uid : JInt} {fd : Fd} :
    s.findFdByUid uid = some fd ↔ s.Lowest uid fd := SortedMap.findKey?_eq_some_iff h.sorted

theorem mem_callbacks {cb : JInt × ServerDataWorker Fd} (h : cb ∈ s.callbacks env codec dataCallback) :
    cb.1 ∈ s.coder.callbackList dataCallback.type ∧ s.findFdByUid cb.1 = some cb.2.remote := by
  obtain ⟨uid, huid, hcb⟩ := List.mem_filterMap.mp h
  obtain ⟨pp, hpp, rfl⟩ := Option.map_eq_some_iff.mp hcb
  obtain ⟨fd, hfd, rfl⟩ := Option.map_eq_some_iff.mp hpp
  exact ⟨huid, hfd⟩

theorem remotes_callbacks : (s.callbacks env codec dataCallback).map (fun cb => cb.2.remote) =
    (s.coder.callbackList dataCallback.type).filterMap s.findFdByUid := by
  rw [Sys.callbacks, List.map_filterMap]
  congr 1
  funext uid
  rw [Sys.onCallback, Option.map_map, Option.map_map]
  exact Option.map_id'

/-- Two uids never share a lowest descriptor, so no descriptor gets two pushes. -/
theorem nodup_remotes (h : Inv s) (type : JInt) :
    ((s.coder.callbackList type).filterMap s.findFdByUid).Nodup := by
  refine List.Nodup.filterMap (fun uid uid' fd hfd hfd' => ?_) (h.nodup type)
  have hone := ((findFdByUid_eq_some_iff h).mp hfd).1
  have htwo := ((findFdByUid_eq_some_iff h).mp hfd').1
  exact Option.some.inj (hone.symm.trans htwo)

theorem routed_iff_clear (h : Inv s) :
    Routed s dataCallback.type (s.callbacks env codec dataCallback) ↔ Clear s dataCallback.type := by
  have hcount (fd : Fd) : ((s.callbacks env codec dataCallback).map fun cb => cb.2.remote).count fd = 1
      ↔ ∃ uid ∈ s.coder.callbackList dataCallback.type, s.Lowest uid fd := by
    rw [remotes_callbacks]
    constructor
    · intro hone
      have hmem := List.count_pos_iff.mp (hone ▸ Nat.one_pos)
      obtain ⟨uid, huid, hfd⟩ := List.mem_filterMap.mp hmem
      exact ⟨uid, huid, (findFdByUid_eq_some_iff h).mp hfd⟩
    · rintro ⟨uid, huid, hfd⟩
      exact List.count_eq_one_of_mem (nodup_remotes h _)
        (List.mem_filterMap.mpr ⟨uid, huid, (findFdByUid_eq_some_iff h).mpr hfd⟩)
  constructor
  · intro hr
    refine ⟨fun uid huid fd hfd => ?_, fun fd peer hpeer hreg => ?_⟩
    · have hmem : fd ∈ (s.callbacks env codec dataCallback).map fun cb => cb.2.remote :=
        List.count_pos_iff.mp ((hcount fd).mpr ⟨uid, huid, hfd⟩ ▸ Nat.one_pos)
      obtain ⟨cb, hcb, rfl⟩ := List.mem_map.mp hmem
      obtain ⟨peer, hpeer, -⟩ := hr.only cb hcb
      exact hpeer ▸ Option.some_ne_none peer
    · obtain ⟨uid, huid, hfd⟩ := (hcount fd).mp (hr.each fd peer hpeer hreg)
      obtain rfl := Option.some.inj (hfd.1.symm.trans (h.uids hpeer))
      exact ⟨huid, hfd⟩
  · intro hc
    refine ⟨fun fd peer hpeer hreg => ?_, fun cb hcb => ?_⟩
    · obtain ⟨huid, hfd⟩ := hc.registered_lowest fd peer hpeer hreg
      exact (hcount fd).mpr ⟨peer.uid, huid, hfd⟩
    · obtain ⟨huid, hfind⟩ := mem_callbacks hcb
      have hfd := (findFdByUid_eq_some_iff h).mp hfind
      obtain ⟨peer, hpeer⟩ := Option.ne_none_iff_exists'.mp (hc.lowest_open _ huid _ hfd)
      exact ⟨peer, hpeer, Option.some.inj ((h.uids hpeer).symm.trans hfd.1)⟩

/-- In a run every notification is routed as it should be just when each one is taken in
a clear state. -/
theorem callbackRouting_iff_clear (codec : Codec amc.DataCallback) (as : List Action) :
    Along (step codec) (Routes codec) init as ↔ Along (step codec) ClearAt init as := by
  refine along_congr (fun hs _ h => hs.step h) (fun {s a} hs => ?_) inv_init
  exact forall_congr' fun env => forall_congr' fun dataCallback => forall_congr' fun cbQueue =>
    imp_congr_right fun _ => imp_congr_right fun _ => routed_iff_clear hs

end Routing

/-- `registerAnrCallback` as a client of this uid sends it. -/
def registerFrame (uid : JInt) : ReqFrame UInt8 :=
  let body := amcWire.RegisterCallback.SerializeToArray ⟨REGISTER_CALLBACK_TYPE_ANR, uid, 1⟩
  let pHead : AMCReqHeader := ⟨HEADER_BEGIN, HEADER_PROTOCAL_VERSION,
    FUNC_REG_ANR_CALLBACK.setWidth 16, BitVec.ofNat 32 body.length, 1, 7, 9⟩
  ⟨pHead, pHead.encode, some body, pHead.bodylen⟩

/-- Two processes of one app connect and register; there is an ANR. -/
def twoProcesses : List Action :=
  [.accept 6 10000, .accept 7 10000, .request exampleServer 6 (registerFrame 10000),
    .request exampleServer 7 (registerFrame 10000), .onANR [65]]

/-- Only the first process is told of the ANR; when it has gone, its closed descriptor
gets the push and the second process still none. -/
theorem callbackRouting_twoProcesses :
    (∃ s, run (step AmcWire.dataCallback.codec) init twoProcesses = some s ∧
      (s.callbacks exampleServer AmcWire.dataCallback.codec ⟨2, [65]⟩).map
        (fun cb => cb.2.remote) = [6]) ∧
    (∃ s, run (step AmcWire.dataCallback.codec) init (twoProcesses ++ [.close 6]) = some s ∧
      s.conns 6 = none ∧ s.conns 7 = some ⟨1, 10000⟩ ∧
      (s.callbacks exampleServer AmcWire.dataCallback.codec ⟨2, [65]⟩).map
        (fun cb => cb.2.remote) = [6]) ∧
    ¬ Along (step AmcWire.dataCallback.codec) (Routes AmcWire.dataCallback.codec) init
      (twoProcesses ++ [.dispatch exampleServer]) := by
  have hrun : (run (step AmcWire.dataCallback.codec) init twoProcesses).map (fun s =>
      ((s.coder.cbQueue, s.conns 7), s.registered,
        (s.callbacks exampleServer AmcWire.dataCallback.codec ⟨2, [65]⟩).map
          fun cb => cb.2.remote)) =
      some (([⟨2, [65]⟩], some ⟨1, 10000⟩), [(0, 2), (1, 2)], [6]) := by decide +kernel
  have hclosed : (run (step AmcWire.dataCallback.codec) init (twoProcesses ++ [.close 6])).map
      (fun s => (s.conns 6, s.conns 7,
        (s.callbacks exampleServer AmcWire.dataCallback.codec ⟨2, [65]⟩).map
          fun cb => cb.2.remote)) = some (none, some ⟨1, 10000⟩, [6]) := by decide +kernel
  obtain ⟨s, hs, hsome⟩ := Option.map_eq_some_iff.mp hrun
  obtain ⟨t, ht, hlate⟩ := Option.map_eq_some_iff.mp hclosed
  simp only [Prod.mk.injEq] at hsome hlate
  obtain ⟨⟨hqueue, hconn⟩, hreg, hremotes⟩ := hsome
  refine ⟨⟨s, hs, hremotes⟩, ⟨t, ht, hlate⟩, fun h => ?_⟩
  have hrouted := h.last hs exampleServer _ _ rfl hqueue
  have hone := hrouted.each 7 _ hconn (by rw [hreg]; decide)
  rw [hremotes] at hone
  exact absurd hone (by decide)

end CallbackServer

end Hardcoder
