import Hardcoder.ClientFraming
import Hardcoder.AmcWire

/-! `ClientProtocal::onCallback` (protocol.h): what a response that has reached one of
the two engines of the client becomes for Java. -/

namespace Hardcoder
open Stream
set_option autoImplicit false

def CALLBACK_TYPE_STATUS : JInt := 1
def CALLBACK_TYPE_DATA : JInt := 2

/-- The arguments of one `IC2JavaCallback::callback` call. -/
structure C2JavaCall where
  callbackType : JInt
  requestid : BitVec 64
  timestamp : BitVec 64
  errCode : JInt
  funcid : JInt
  dataType : JInt
  data : Option (List UInt8)
  len : JInt
deriving DecidableEq, Repr

namespace HardCoderJNI

def CLIENT_CONNECT : JInt := -20000
def CLIENT_DISCONNECT : JInt := -20001
def ERR_CLIENT_ALREADY_INIT : JInt := -20002

def FUNC_LOCAL : JInt := 0

/-- The `connect` that `onData` leaves. -/
def connected (connect : Bool) (info : C2JavaCall) : Bool :=
  if info.callbackType = CALLBACK_TYPE_STATUS ∧ info.funcid = FUNC_LOCAL then
    if info.errCode = CLIENT_CONNECT then true
    else if info.errCode = CLIENT_DISCONNECT then false
    else if info.errCode = ERR_CLIENT_ALREADY_INIT then true
    else connect
  else connect

end HardCoderJNI

section Receive
variable (codec : Codec amc.DataCallback) (c2JavaCallback : Bool)

/-- `data` is `none` for a null pointer. -/
def ClientProtocal.onCallback (funcid : JInt) (requestid : BitVec 64) (bodyFormat : BitVec 32)
    (timestamp : BitVec 64) (retCode : JInt) (data : Option (List UInt8)) (len : JInt) :
    List C2JavaCall :=
  let status : C2JavaCall :=
    ⟨CALLBACK_TYPE_STATUS, requestid, timestamp, retCode, funcid, 0, none, 0⟩
  if c2JavaCallback = false then []
  else if funcid = 0 ∧ retCode ≠ 0 then [status]
  else if len.toInt ≤ 0 ∨ data = none then [status]
  else if bodyFormat = HEADER_BODYFORMAT_PROTO then
    let p := codec.ParseFromArray (copied data len)
    if p.1 = false then []
    else [⟨CALLBACK_TYPE_DATA, requestid, 0, 0, funcid, p.2.type, some p.2.data,
      BitVec.ofNat 32 p.2.data.length⟩]
  else if bodyFormat = HEADER_BODYFORMAT_JSON then
    [⟨CALLBACK_TYPE_DATA, requestid, 0, 0, funcid, 0, data, len⟩]
  else []

/-- The `m_DataCallback->onCallback(..)` of `LocalsocketClient::recvEvent`. -/
def LocalsocketClient.Callback.onCallback (call : LocalsocketClient.Callback) : List C2JavaCall :=
  ClientProtocal.onCallback codec c2JavaCallback (call.funcid.setWidth 32) call.requestid
    call.bodyformat call.timestamp call.retCode call.data (BitVec.ofNat 32 call.len)

/-- `UdpClient::recvEvent` on `EVENT_DATA`; it passes 0 for the body format. -/
def UdpClient.recvEvent (d : Delivery UInt8) : List C2JavaCall :=
  let pHead := AMCRespHeader.decode (d.read 0 AMCRespHeader.size)
  let len := BitVec.ofInt 32 (d.bytes.length - AMCRespHeader.size)
  ClientProtocal.onCallback codec c2JavaCallback (pHead.funcid.setWidth 32) pHead.requestid 0
    pHead.timestamp pHead.retCode (some (d.read AMCRespHeader.size len.toNat)) len

end Receive

/-- The engine that receives a packet; a local socket has its members as they are. -/
inductive ClientEngine where
  | localsocket (st : LocalsocketClient.RecvState)
  | udp

namespace ClientEngine

/-- No part of a packet has been received before, and the engine knows the packet's version. -/
def Ready (v : BitVec 16) : ClientEngine → Prop
  | .localsocket st => LocalsocketClient.Holds st []
  | .udp => v < HEADER_JSON_VERSION

/-- One `EVENT_DATA` with `d` leads to just these calls. -/
def Calls (codec : Codec amc.DataCallback) (d : Delivery UInt8) (calls : List C2JavaCall) :
    ClientEngine → Prop
  | .localsocket st => ∃ fuel r, LocalsocketClient.recvEvent fuel st d = some r ∧
      r.calls.flatMap (·.onCallback codec true) = calls
  | .udp => UdpClient.recvEvent codec true d = calls

end ClientEngine

/-- An empty body, a message for a protobuf client, any text for a JSON client. -/
def Response.BodyFits (codec : Codec amc.DataCallback) (v : BitVec 16) (r : Response) : Prop :=
  r.body = [] ∨ HEADER_JSON_VERSION ≤ v ∨ ∃ m, r.body = codec.SerializeToArray m

/-- The call tells Java what the response of version `v` says. -/
structure Carries (codec : Codec amc.DataCallback) (v : BitVec 16) (r : Response)
    (call : C2JavaCall) : Prop where
  requestid : call.requestid = r.requestId
  funcid : call.funcid = r.funcid
  errCode : call.errCode = r.retCode
  json : HEADER_JSON_VERSION ≤ v → r.body ≠ [] →
    call.data = some r.body ∧ call.len = BitVec.ofNat 32 r.body.length
  proto : v < HEADER_JSON_VERSION → r.body ≠ [] → ∀ m, r.body = codec.SerializeToArray m →
    call.dataType = m.type ∧ call.data = some m.data ∧ call.len = BitVec.ofNat 32 m.data.length

/-- Exactly one call is made for the packet, and it carries the response. -/
def CalledOnce (codec : Codec amc.DataCallback) (v : BitVec 16) (r : Response)
    (d : Delivery UInt8) (engine : ClientEngine) : Prop :=
  ∃ call, engine.Calls codec d [call] ∧ Carries codec v r call

section OnCallback
variable {codec : Codec amc.DataCallback} {c2JavaCallback : Bool} {funcid : JInt}
  {requestid : BitVec 64} {bodyFormat : BitVec 32} {timestamp : BitVec 64} {retCode : JInt}
  {data : Option (List UInt8)} {len : JInt} {call : C2JavaCall}

theorem onCallback_lossy (h : call ∈ ClientProtocal.onCallback codec c2JavaCallback funcid requestid
    bodyFormat timestamp retCode data len) : call.data = none ∨ call.errCode = 0 := by
  unfold ClientProtocal.onCallback at h
  dsimp only at h
  split at h
  · cases h
  split at h
  · exact .inl (by rw [List.mem_singleton.mp h])
  split at h
  · exact .inl (by rw [List.mem_singleton.mp h])
  split at h
  · split at h
    · cases h
    · exact .inr (by rw [List.mem_singleton.mp h])
  split at h
  · exact .inr (by rw [List.mem_singleton.mp h])
  · cases h

theorem onCallback_raw (h : call ∈ ClientProtocal.onCallback codec c2JavaCallback funcid requestid
    0 timestamp retCode data len) : call.data = none := by
  unfold ClientProtocal.onCallback at h
  dsimp only at h
  split at h
  · cases h
  split at h
  · rw [List.mem_singleton.mp h]
  split at h
  · rw [List.mem_singleton.mp h]
  · rw [if_neg (by decide), if_neg (by decide)] at h
    cases h

theorem onCallback_empty (hlen : len.toInt ≤ 0) :
    ClientProtocal.onCallback codec true funcid requestid bodyFormat timestamp retCode data len =
      [⟨CALLBACK_TYPE_STATUS, requestid, timestamp, retCode, funcid, 0, none, 0⟩] := by
  simp only [ClientProtocal.onCallback, Bool.true_eq_false, if_false, hlen, true_or, if_true,
    ite_self]

theorem onCallback_proto {m : amc.DataCallback} (hret : retCode = 0) (hlen : 0 < len.toInt)
    (hdata : data ≠ none) (hparse : codec.ParseFromArray (copied data len) = (true, m)) :
    ClientProtocal.onCallback codec true funcid requestid HEADER_BODYFORMAT_PROTO timestamp retCode
      data len = [⟨CALLBACK_TYPE_DATA, requestid, 0, 0, funcid, m.type, some m.data,
        BitVec.ofNat 32 m.data.length⟩] := by
  have hstatus : ¬ (len.toInt ≤ 0 ∨ data = none) := fun h => h.elim (by omega) hdata
  simp [ClientProtocal.onCallback, hret, hstatus, hparse]

theorem onCallback_json (hret : retCode = 0) (hlen : 0 < len.toInt) (hdata : data ≠ none) :
    ClientProtocal.onCallback codec true funcid requestid HEADER_BODYFORMAT_JSON timestamp retCode
      data len = [⟨CALLBACK_TYPE_DATA, requestid, 0, 0, funcid, 0, data, len⟩] := by
  have hstatus : ¬ (len.toInt ≤ 0 ∨ data = none) := fun h => h.elim (by omega) hdata
  have hformat : HEADER_BODYFORMAT_JSON ≠ HEADER_BODYFORMAT_PROTO := by decide
  simp [ClientProtocal.onCallback, hret, hstatus, hformat]

end OnCallback

section Packets
variable {codec : Codec amc.DataCallback} {v : BitVec 16} {p : Sent}

/-- One packet alone in a chunk leads to one `onCallback`. -/
theorem LocalsocketClient.recvEvent_pack (hv : HEADER_PROTOCAL_VERSION ≤ v)
    {st : LocalsocketClient.RecvState} (h : LocalsocketClient.Holds st [])
    (beyond : Nat → UInt8) : ∃ st' call,
      LocalsocketClient.recvEvent 2 st ⟨Response.pack v p, beyond⟩ = some ⟨0, st', [call]⟩ ∧
        Called p.1 call ∧ call.bodyformat = Response.bodyformat v := by
  have hwhole : [] ++ (Response.pack v p).drop 0 = Response.pack v p ++ [] :=
    (List.append_nil _).symm
  obtain ⟨pos', st', call, hpass, hcall, hformat, -, hpos', hdrop⟩ :=
    LocalsocketClient.recvPass_pack hv h (Nat.zero_le _) p (Nat.zero_le _) hwhole
  have hsize := p.1.size_le v
  have hlen := Response.length_pack hv p
  have hne : ¬ (Response.pack v p).length ≤ 0 := by
    unfold AMCRespHeader.size at hsize
    omega
  have hend : (Response.pack v p).length ≤ pos' := List.drop_eq_nil_iff.mp hdrop
  refine ⟨st', call, ?_, hcall, hformat⟩
  simp only [LocalsocketClient.recvEvent, LocalsocketClient.recvLoop, if_neg hne, hpass, if_pos hend,
    Option.map_some]

theorem UdpClient.recvEvent_pack (hv : HEADER_PROTOCAL_VERSION ≤ v) (hproto : v < HEADER_JSON_VERSION)
    (beyond : Nat → UInt8) : UdpClient.recvEvent codec true ⟨Response.pack v p, beyond⟩ =
      ClientProtocal.onCallback codec true p.1.funcid p.1.requestId 0 p.1.ts.nanos p.1.retCode
        (some p.1.body) (BitVec.ofNat 32 p.1.body.length) := by
  have hf := p.1.funcid_le
  have hbody := p.1.data_lt
  have hpack : Response.pack v p = (p.1.header v).encode ++ p.1.body := by
    rw [Response.pack_eq hv, Response.extension, if_neg (BitVec.not_le.mpr hproto), List.nil_append]
  have hhead : (⟨Response.pack v p, beyond⟩ : Delivery UInt8).read 0 AMCRespHeader.size =
      (p.1.header v).encode := by
    rw [← (p.1.header v).length_encode]
    exact Delivery.read_front _ hpack
  have hlen : BitVec.ofInt 32 ((Response.pack v p).length - AMCRespHeader.size) =
      BitVec.ofNat 32 p.1.body.length := by
    rw [hpack, List.length_append, AMCRespHeader.length_encode]
    refine BitVec.eq_of_toNat_eq ?_
    rw [BitVec.toNat_ofInt, BitVec.toNat_ofNat]
    omega
  have hdata : (⟨Response.pack v p, beyond⟩ : Delivery UInt8).read AMCRespHeader.size
      (BitVec.ofNat 32 p.1.body.length).toNat = p.1.body := by
    have hdrop : (Response.pack v p).drop AMCRespHeader.size = p.1.body ++ [] := by
      rw [hpack, List.append_nil, ← (p.1.header v).length_encode, List.drop_left]
    rw [BitVec.toNat_ofNat, Nat.mod_eq_of_lt (by unfold Response.body; omega)]
    exact Delivery.read_front _ hdrop
  have hfuncid : (p.1.header v).funcid.setWidth 32 = p.1.funcid := by
    refine BitVec.eq_of_toNat_eq ?_
    simp only [Response.header, respHeader, BitVec.toNat_setWidth]
    omega
  simp only [UdpClient.recvEvent, hhead, hlen, hdata, AMCRespHeader.decode_encode, hfuncid]
  rfl

theorem LocalsocketClient.Callback.onCallback_called {r : Response}
    {call : LocalsocketClient.Callback} (h : Called r call) :
    call.onCallback codec true = ClientProtocal.onCallback codec true r.funcid r.requestId
      call.bodyformat r.ts.nanos r.retCode call.data (BitVec.ofNat 32 r.body.length) := by
  have hfuncid : call.funcid.setWidth 32 = r.funcid := by
    refine BitVec.eq_of_toNat_eq ?_
    rw [BitVec.toNat_setWidth, h.funcid]
    have hf := r.funcid_le
    omega
  rw [LocalsocketClient.Callback.onCallback, hfuncid, h.requestid, h.timestamp, h.retCode, h.len]

theorem toInt_length (r : Response) :
    (BitVec.ofNat 32 r.body.length).toInt = r.body.length := by
  have hbody : r.body.length < 2 ^ 31 := r.data_lt
  rw [BitVec.toInt_eq_toNat_of_lt] <;> rw [BitVec.toNat_ofNat] <;> omega

theorem Carries.data_ne {r : Response} {call : C2JavaCall} (hfits : r.BodyFits codec v)
    (h : Carries codec v r call) (hbody : r.body ≠ []) : call.data ≠ none := by
  by_cases hjson : HEADER_JSON_VERSION ≤ v
  · rw [(h.json hjson hbody).1]
    exact Option.some_ne_none _
  · rcases hfits with hnil | hfits | ⟨m, hm⟩
    · exact absurd hnil hbody
    · exact absurd hfits hjson
    · rw [(h.proto (BitVec.not_le.mp hjson) hbody m hm).2.1]
      exact Option.some_ne_none _

theorem carries_empty {r : Response} (hbody : r.body = []) : Carries codec v r
    ⟨CALLBACK_TYPE_STATUS, r.requestId, r.ts.nanos, r.retCode, r.funcid, 0, none, 0⟩ :=
  ⟨rfl, rfl, rfl, fun _ hne => absurd hbody hne, fun _ hne => absurd hbody hne⟩

theorem carries_data (hparse : codec.Inverse) {r : Response} (hfits : r.BodyFits codec v)
    (hbody : r.body ≠ []) (hret : r.retCode = 0) {data : Option (List UInt8)}
    (hdata : data.getD [] = r.body) : ∃ call,
      ClientProtocal.onCallback codec true r.funcid r.requestId (Response.bodyformat v) r.ts.nanos
        r.retCode data (BitVec.ofNat 32 r.body.length) = [call] ∧ Carries codec v r call := by
  obtain rfl : data = some r.body := by
    cases data with
    | none => exact absurd hdata.symm hbody
    | some bs => rw [← hdata, Option.getD_some]
  have hlen : 0 < (BitVec.ofNat 32 r.body.length).toInt := by
    have hpos := List.length_pos_iff.mpr hbody
    rw [toInt_length]
    omega
  by_cases hjson : HEADER_JSON_VERSION ≤ v
  · rw [Response.bodyformat, if_pos hjson]
    exact ⟨_, onCallback_json hret hlen (Option.some_ne_none _), rfl, rfl, hret.symm,
      fun _ _ => ⟨rfl, rfl⟩, fun hlt => absurd hjson (BitVec.not_le.mpr hlt)⟩
  · obtain ⟨m, hm⟩ : ∃ m, r.body = codec.SerializeToArray m :=
      (hfits.resolve_left hbody).resolve_left hjson
    have hcopied : codec.ParseFromArray (copied (some r.body) (BitVec.ofNat 32 r.body.length)) =
        (true, m) := by
      have hsome : copied (some r.body) (BitVec.ofNat 32 r.body.length) = r.body := by
        rw [copied, Option.getD_some, ← Response.dataLen, r.toNat_dataLen]
        exact List.take_length
      rw [hsome, hm]
      exact hparse m
    rw [Response.bodyformat, if_neg hjson]
    refine ⟨_, onCallback_proto hret hlen (Option.some_ne_none _) hcopied, rfl, rfl, hret.symm,
      fun hge => absurd hge hjson, fun _ _ m' hm' => ?_⟩
    have hmm : (true, m) = (true, m') := by rw [← hparse m, ← hparse m', ← hm, ← hm']
    obtain rfl := (Prod.mk.inj hmm).2
    exact ⟨rfl, rfl, rfl⟩

/-- A response reaches Java as it was sent when it has no body, or when it comes over
the local socket with the code 0; otherwise it does not. -/
theorem calledOnce_iff (hparse : codec.Inverse) (hv : HEADER_PROTOCAL_VERSION ≤ v)
    (hfits : p.1.BodyFits codec v) {engine : ClientEngine} (hready : engine.Ready v)
    (beyond : Nat → UInt8) :
    CalledOnce codec v p.1 ⟨Response.pack v p, beyond⟩ engine ↔
      p.1.body = [] ∨ (engine ≠ .udp ∧ p.1.retCode = 0) := by
  cases engine with
  | localsocket st =>
    obtain ⟨st', call, hrun, hcalled, hformat⟩ :=
      @LocalsocketClient.recvEvent_pack v p hv st hready beyond
    have hmade := @LocalsocketClient.Callback.onCallback_called codec p.1 call hcalled
    rw [hformat] at hmade
    constructor
    · rintro ⟨c, ⟨fuel, r, hr, hcalls⟩, hcarries⟩
      have hone := LocalsocketClient.recvLoop_mono _ (Nat.le_add_right fuel 2) hr
      have htwo := LocalsocketClient.recvLoop_mono _ (Nat.le_add_left 2 fuel) hrun
      obtain rfl := Option.some.inj (hone.symm.trans htwo)
      rw [List.flatMap_singleton, hmade] at hcalls
      by_cases hbody : p.1.body = []
      · exact .inl hbody
      · have hmem := List.mem_singleton.mpr (Eq.refl c)
        rw [← hcalls] at hmem
        have herr := (onCallback_lossy hmem).resolve_left (hcarries.data_ne hfits hbody)
        exact .inr ⟨fun h => (by cases h), by rw [← hcarries.errCode, herr]⟩
    · intro h
      by_cases hbody : p.1.body = []
      · refine ⟨_, ⟨2, _, hrun, ?_⟩, carries_empty hbody⟩
        rw [List.flatMap_singleton, hmade]
        exact onCallback_empty (by rw [toInt_length, hbody]; exact Int.le_refl _)
      · obtain ⟨-, hret⟩ := h.resolve_left hbody
        obtain ⟨c, hc, hcarries⟩ := carries_data hparse hfits hbody hret hcalled.data
        exact ⟨c, ⟨2, _, hrun, by rw [List.flatMap_singleton, hmade, hc]⟩, hcarries⟩
  | udp =>
    have hmade := @UdpClient.recvEvent_pack codec v p hv hready beyond
    constructor
    · rintro ⟨c, hcalls, hcarries⟩
      have hmem : c ∈ UdpClient.recvEvent codec true ⟨Response.pack v p, beyond⟩ :=
        hcalls ▸ List.mem_singleton.mpr rfl
      rw [hmade] at hmem
      by_contra h
      rw [not_or] at h
      exact hcarries.data_ne hfits h.1 (onCallback_raw hmem)
    · intro h
      have hbody := h.resolve_right fun hne => hne.1 rfl
      refine ⟨_, ?_, carries_empty hbody⟩
      rw [ClientEngine.Calls, hmade]
      exact onCallback_empty (by rw [toInt_length, hbody]; exact Int.le_refl _)

end Packets

/-- A system event with one byte of data and the given result, sent by a version 4 server. -/
def eventResponse (retCode : BitVec 32) : Response where
  funcid := 1015
  retCode := retCode
  requestId := 1
  data := some (AmcWire.dataCallback.codec.SerializeToArray ⟨1, [65]⟩)
  ts := ⟨1, 0⟩
  funcid_le := by decide
  data_lt := by decide

def eventPacket (retCode : BitVec 32) : List UInt8 :=
  Response.pack HEADER_PROTOCAL_VERSION (eventResponse retCode, ⟨0, 0, 0⟩)

/-- A local-socket client that has just been constructed. -/
def freshClient : ClientEngine := .localsocket (.new (List.replicate AMCRespHeaderV2.size 0))

theorem calledOnce_iff_event :
    CalledOnce AmcWire.dataCallback.codec HEADER_PROTOCAL_VERSION (eventResponse 0)
      ⟨eventPacket 0, fun _ => 0⟩ freshClient :=
  (@calledOnce_iff AmcWire.dataCallback.codec HEADER_PROTOCAL_VERSION
    (eventResponse 0, ⟨0, 0, 0⟩) AmcWire.dataCallback.codec_inverse (by decide)
    (.inr (.inr ⟨⟨1, [65]⟩, rfl⟩)) freshClient (LocalsocketClient.holds_new rfl) _).mpr
    (.inr ⟨ClientEngine.noConfusion, rfl⟩)

/-- The event does not reach Java over UDP, and over the local socket its result 7 is
passed on as 0. -/
theorem calledOnce_event :
    UdpClient.recvEvent AmcWire.dataCallback.codec true ⟨eventPacket 0, fun _ => 0⟩ = [] ∧
    ¬ CalledOnce AmcWire.dataCallback.codec HEADER_PROTOCAL_VERSION (eventResponse 0)
      ⟨eventPacket 0, fun _ => 0⟩ .udp ∧
    freshClient.Calls AmcWire.dataCallback.codec ⟨eventPacket 7, fun _ => 0⟩
      [⟨CALLBACK_TYPE_DATA, 1, 0, 0, 1015, 1, some [65], 1⟩] := by
  have hudp : UdpClient.recvEvent AmcWire.dataCallback.codec true ⟨eventPacket 0, fun _ => 0⟩ = [] :=
    by decide +kernel
  refine ⟨hudp, fun h => ?_, 2, _, rfl, ?_⟩
  · obtain ⟨c, hcalls, -⟩ := h
    rw [ClientEngine.Calls, hudp] at hcalls
    cases hcalls
  · decide +kernel

end Hardcoder
