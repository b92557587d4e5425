import Mathlib.Data.List.Nodup
import Mathlib.Data.List.Perm.Basic
import Mathlib.Logic.Function.Basic
import Hardcoder.Lib.Runs
import Hardcoder.ClientCallback
import Hardcoder.RequestFidelity

/-! `HardCoderJNI.checkPermission` and the callbacks of its calls (HardCoderJNI.java). A call
sends its request in one step and registers its callback under the request id in another;
the callback thread hands on the responses meanwhile. Calls are numbered only to say
whose request, callback or response something is. -/

namespace Hardcoder
open Runs
set_option autoImplicit false

namespace HardCoderJNI

abbrev Call := Nat

/-- A request on its way to the server, and the `checkPermission` call it is of, if any. -/
structure Packet where
  call : Option Call
  bytes : List UInt8

/-- What waits for the callback thread, and the call it is the response of, if any. -/
structure Message where
  call : Option Call
  info : C2JavaCall

structure Sys where
  connect : Bool
  funcRetCallback : JLong → Option Call
  /-- the number of `checkPermission` calls so far -/
  made : Nat
  /-- what the native method returned to a call -/
  requestId : Call → JLong
  /-- calls that have sent and not yet put -/
  unput : List Call
  wire : List Packet
  queue : List Message
  /-- calls whose response `onData` has processed -/
  answered : List Call
  /-- the `onFuncRet` calls: whose callback, and of which call the response was -/
  invoked : List (Call × Option Call)

def init : Sys where
  connect := false
  funcRetCallback := fun _ => none
  made := 0
  requestId := fun _ => 0
  unput := []
  wire := []
  queue := []
  answered := []
  invoked := []

inductive Action where
  /-- `checkPermission` up to the return of the native method -/
  | checkPermission (env : ClientEnv) (mem : JniHeap) (manufactures certs : JArray JString)
      (pid uid tid : JInt) (timestamp : JLong)
  /-- `funcRetCallback.put(requestId, callback)` -/
  | put (c : Call)
  /-- another native method sends a request -/
  | request (env : ClientEnv) (mem : JniHeap) (call : NativeCall)
  /-- a request gets lost, or its response -/
  | lose (i : Nat)
  /-- the server answers a request, and the client engine hands the response on -/
  | serve (i : Nat) (resp : C2JavaCall)
  /-- a status of the engine or a system callback; both have the request id 0 -/
  | event (info : C2JavaCall)
  /-- the callback thread takes the first message -/
  | onData

/-- The branches of `onData` that end in `onRequestCallback`. -/
def ToRequestCallback (info : C2JavaCall) : Prop :=
  if info.callbackType = CALLBACK_TYPE_STATUS then info.funcid ≠ FUNC_LOCAL
  else if info.callbackType = CALLBACK_TYPE_DATA then info.funcid ≠ FUNC_REG_ANR_CALLBACK
  else True

instance (info : C2JavaCall) : Decidable (ToRequestCallback info) := by
  unfold ToRequestCallback
  infer_instance

namespace Sys

/-- The native method has returned `r` to a new call. -/
def sent (s : Sys) (r : SendResult) : Sys :=
  { s with
    made := s.made + 1
    requestId := Function.update s.requestId s.made (BitVec.ofInt 64 r.ret)
    unput := s.unput ++ [s.made]
    wire := s.wire ++ r.packet.toList.map fun bytes => ⟨some s.made, bytes⟩ }

def put (s : Sys) (c : Call) : Sys :=
  { s with
    unput := s.unput.erase c
    funcRetCallback := Function.update s.funcRetCallback (s.requestId c) (some c) }

def onRequestCallback (s : Sys) (m : Message) : Sys :=
  { s with
    funcRetCallback := Function.update s.funcRetCallback m.info.requestid none
    answered := s.answered ++ m.call.toList
    invoked := s.invoked ++
      (s.funcRetCallback m.info.requestid).toList.map fun c => (c, m.call) }

def onData (s : Sys) (m : Message) : Sys :=
  if ToRequestCallback m.info then s.onRequestCallback m
  else { s with connect := connected s.connect m.info }

end Sys

def step (s : Sys) : Action → Option Sys
  | .checkPermission env mem manufactures certs pid uid tid timestamp =>
    -- returns `ERROR_CODE_DISCONNECT` before anything is sent
    if s.connect = false then some s
    else
      (native env mem (.checkPermission manufactures certs pid uid tid timestamp)).map s.sent
  | .put c => if c ∈ s.unput then some (s.put c) else none
  | .request env mem call =>
    (native env mem call).map fun r =>
      { s with wire := s.wire ++ r.packet.toList.map fun bytes => ⟨none, bytes⟩ }
  | .lose i => if i < s.wire.length then some { s with wire := s.wire.eraseIdx i } else none
  | .serve i resp =>
    match s.wire[i]? with
    | none => none
    | some p =>
      let pHead := AMCReqHeader.decode p.bytes
      if resp.requestid = pHead.requestid ∧ resp.funcid = pHead.funcid.setWidth 32 then
        some { s with wire := s.wire.eraseIdx i, queue := s.queue ++ [⟨p.call, resp⟩] }
      else none
  | .event info =>
    if info.requestid = 0 then some { s with queue := s.queue ++ [⟨none, info⟩] } else none
  | .onData =>
    match s.queue with
    | [] => none
    | m :: queue => some (Sys.onData { s with queue := queue } m)

/-- A callback is invoked for its own response only, and exactly once when that has been
processed; an entry is that of a call whose response is still to come. -/
structure Good (s : Sys) : Prop where
  once : ∀ c ∈ s.answered, (s.invoked.map Prod.fst).count c = 1
  own : ∀ c o, (c, o) ∈ s.invoked → o = some c
  entries : ∀ k c, s.funcRetCallback k = some c → 0 < (s.requestId c).toInt ∧ c ∉ s.answered

/-- The call has registered its callback and its response has not been processed. -/
structure Sys.Waiting (s : Sys) (c : Call) : Prop where
  lt : c < s.made
  put : c ∉ s.unput
  unanswered : c ∉ s.answered

instance (s : Sys) (c : Call) : Decidable (s.Waiting c) :=
  decidable_of_iff (c < s.made ∧ c ∉ s.unput ∧ c ∉ s.answered)
    ⟨fun h => ⟨h.1, h.2.1, h.2.2⟩, fun h => ⟨h.lt, h.put, h.unanswered⟩⟩

/-- A callback is registered under a positive id that no waiting call has; a response comes
after its call has registered, and no other message has the id of a waiting call. -/
def Timely (s : Sys) : Action → Prop
  | .put c => c ∈ s.unput → 0 < (s.requestId c).toInt ∧
      ∀ c' < s.made, s.Waiting c' → s.requestId c' ≠ s.requestId c
  | .onData => ∀ m ∈ s.queue.head?, (∀ c ∈ m.call, c ∉ s.unput) ∧
      (m.call = none → ToRequestCallback m.info →
        ∀ c < s.made, s.Waiting c → s.requestId c ≠ m.info.requestid)
  | _ => True

instance (s : Sys) (a : Action) : Decidable (Timely s a) :=
  match a with
  | .put c => inferInstanceAs (Decidable (c ∈ s.unput → 0 < (s.requestId c).toInt ∧
      ∀ c' < s.made, s.Waiting c' → s.requestId c' ≠ s.requestId c))
  | .onData => inferInstanceAs (Decidable (∀ m ∈ s.queue.head?, (∀ c ∈ m.call, c ∉ s.unput) ∧
      (m.call = none → ToRequestCallback m.info →
        ∀ c < s.made, s.Waiting c → s.requestId c ≠ m.info.requestid)))
  | .checkPermission .. | .request .. | .lose .. | .serve .. | .event .. => .isTrue trivial

/-- The calls whose request or response is on its way, or processed. -/
def Sys.origins (s : Sys) : List Call :=
  s.wire.filterMap (·.call) ++ (s.queue.filterMap (·.call) ++ s.answered)

structure Inv (s : Sys) : Prop where
  unput_lt : ∀ c ∈ s.unput, c < s.made
  unput_nodup : s.unput.Nodup
  nodup : s.origins.Nodup
  origins_lt : ∀ c ∈ s.origins, c < s.made
  packets : ∀ p ∈ s.wire, ∀ c, p.call = some c →
    (AMCReqHeader.decode p.bytes).requestid = s.requestId c ∧
      (AMCReqHeader.decode p.bytes).funcid = FUNC_CHECK_PERMISSION.setWidth 16
  messages : ∀ m ∈ s.queue, ∀ c, m.call = some c →
    m.info.requestid = s.requestId c ∧ ToRequestCallback m.info
  answered_put : ∀ c ∈ s.answered, c ∉ s.unput
  entry : ∀ k c, s.funcRetCallback k = some c →
    s.Waiting c ∧ s.requestId c = k ∧ 0 < k.toInt
  waiting : ∀ c, s.Waiting c → s.funcRetCallback (s.requestId c) = some c
  invoked : ∀ c o, (c, o) ∈ s.invoked → o = some c ∧ c ∈ s.answered
  once : ∀ c ∈ s.answered, (s.invoked.map Prod.fst).count c = 1

theorem inv_init : Inv init where
  unput_lt := fun _ h => nomatch h
  unput_nodup := List.nodup_nil
  nodup := List.nodup_nil
  origins_lt := fun _ h => nomatch h
  packets := fun _ h => nomatch h
  messages := fun _ h => nomatch h
  answered_put := fun _ h => nomatch h
  entry := fun _ _ h => nomatch h
  waiting := fun _ h => nomatch h.lt
  invoked := fun _ _ h => nomatch h
  once := fun _ h => nomatch h

theorem Inv.good {s : Sys} (h : Inv s) : Good s := by
  refine ⟨h.once, fun c o hco => (h.invoked c o hco).1, fun k c hk => ?_⟩
  obtain ⟨hw, rfl, hpos⟩ := h.entry k c hk
  exact ⟨hpos, hw.unanswered⟩

section Native
variable {env : ClientEnv} {funcid : BitVec 32} {tid : JInt} {timestamp : JLong} {pack : List UInt8}

theorem genReqPack_header {v : BitVec 16} {heap : Uninit} {now : TimeVal}
    {data : Option (List UInt8)} {dataLen : BitVec 32}
    (h : (genReqPack v heap now funcid data dataLen tid timestamp).outPack = some pack) :
    (AMCReqHeader.decode pack).requestid =
        BitVec.ofInt 64 (genReqPack v heap now funcid data dataLen tid timestamp).ret ∧
      (AMCReqHeader.decode pack).funcid = funcid.setWidth 16 := by
  unfold genReqPack at h ⊢
  split at h
  · cases h
  rename_i hnull
  rw [if_neg hnull]
  split at h
  · cases h
  rename_i hfuncid
  rw [if_neg hfuncid]
  split at h
  · cases h
  rename_i hversion
  rw [if_neg hversion]
  dsimp only at h ⊢
  split at h
  · rename_i hjson
    rw [if_pos hjson]
    obtain rfl := Option.some.inj h
    rw [AMCReqHeaderV2.encode, List.append_assoc, AMCReqHeader.decode_encode_append]
    exact ⟨(BitVec.ofInt_toInt).symm, rfl⟩
  · rename_i hjson
    rw [if_neg hjson]
    obtain rfl := Option.some.inj h
    rw [AMCReqHeader.decode_encode_append]
    exact ⟨(BitVec.ofInt_toInt).symm, rfl⟩

theorem sendReq_header {pEngine : IClientEngine} {data : Option (List UInt8)} {dataLen : JInt}
    (h : (env.sendReq pEngine funcid data dataLen tid timestamp).packet = some pack) :
    (AMCReqHeader.decode pack).requestid =
        BitVec.ofInt 64 (env.sendReq pEngine funcid data dataLen tid timestamp).ret ∧
      (AMCReqHeader.decode pack).funcid = funcid.setWidth 16 := by
  unfold ClientEnv.sendReq at h ⊢
  dsimp only at h ⊢
  split at h
  · cases h
  split at h
  · cases h
  rename_i hrunning hret
  rw [if_neg hrunning, if_neg hret]
  exact genReqPack_header h

theorem sendMessage_header {M : Type} {codec : Codec M} {request : M}
    (h : (env.sendMessage codec request funcid tid timestamp).packet = some pack) :
    (AMCReqHeader.decode pack).requestid =
        BitVec.ofInt 64 (env.sendMessage codec request funcid tid timestamp).ret ∧
      (AMCReqHeader.decode pack).funcid = funcid.setWidth 16 := by
  unfold ClientEnv.sendMessage ClientEnv.withEngine at h ⊢
  dsimp only at h ⊢
  cases hengine : env.engine with
  | none =>
    rw [hengine] at h
    cases h
  | some pEngine =>
    rw [hengine] at h
    simp only [Option.map_some, Option.getD_some] at h ⊢
    split at h
    · cases h
    · rename_i hlen
      rw [if_neg hlen]
      exact sendReq_header h

theorem checkPermission_header {manufactures certs : List StdString}
    (h : (env.checkPermission manufactures certs tid timestamp).packet = some pack) :
    (AMCReqHeader.decode pack).requestid =
        BitVec.ofInt 64 (env.checkPermission manufactures certs tid timestamp).ret ∧
      (AMCReqHeader.decode pack).funcid = FUNC_CHECK_PERMISSION.setWidth 16 :=
  sendMessage_header h

/-- A response to `checkPermission` is never taken for a status or an ANR log. -/
theorem toRequestCallback_checkPermission {info : C2JavaCall}
    (h : info.funcid = (FUNC_CHECK_PERMISSION.setWidth 16).setWidth 32) : ToRequestCallback info := by
  unfold ToRequestCallback
  rw [h]
  split
  · decide
  split
  · decide
  · trivial

end Native

namespace Inv
variable {s s' : Sys}

theorem origin_wire {p : Packet} (hp : p ∈ s.wire) {c : Call} (hc : p.call = some c) :
    c ∈ s.origins :=
  List.mem_append_left _ (List.mem_filterMap.mpr ⟨p, hp, hc⟩)

theorem origin_queue {m : Message} (hm : m ∈ s.queue) {c : Call} (hc : m.call = some c) :
    c ∈ s.origins :=
  List.mem_append_right _ (List.mem_append_left _ (List.mem_filterMap.mpr ⟨m, hm, hc⟩))

theorem answered_lt (h : Inv s) {c : Call} (hc : c ∈ s.answered) : c < s.made :=
  h.origins_lt c (List.mem_append_right _ (List.mem_append_right _ hc))

theorem origins_sent (s : Sys) (r : SendResult) :
    (s.sent r).origins.Perm (r.packet.toList.map (fun _ => s.made) ++ s.origins) := by
  unfold Sys.origins Sys.sent
  dsimp only
  rw [List.filterMap_append, List.append_assoc]
  have hnew : (r.packet.toList.map fun bytes => (⟨some s.made, bytes⟩ : Packet)).filterMap (·.call) =
      r.packet.toList.map fun _ => s.made := by
    cases r.packet <;> rfl
  rw [hnew]
  exact List.perm_append_comm_assoc _ _ _

theorem waiting_sent {r : SendResult} {c : Call} : (s.sent r).Waiting c ↔ s.Waiting c := by
  constructor
  · rintro ⟨hlt, hput, hanswered⟩
    have hne : c ≠ s.made := fun hc => hput (List.mem_append_right _ (List.mem_singleton.mpr hc))
    exact ⟨Nat.lt_of_le_of_ne (Nat.le_of_lt_succ hlt) hne,
      fun hc => hput (List.mem_append_left _ hc), hanswered⟩
  · rintro ⟨hlt, hput, hanswered⟩
    refine ⟨Nat.lt_succ_of_lt hlt, ?_, hanswered⟩
    simp only [Sys.sent, List.mem_append, List.mem_singleton, not_or]
    exact ⟨hput, Nat.ne_of_lt hlt⟩

theorem sent (h : Inv s) {r : SendResult} (hpacket : ∀ pack, r.packet = some pack →
    (AMCReqHeader.decode pack).requestid = BitVec.ofInt 64 r.ret ∧
      (AMCReqHeader.decode pack).funcid = FUNC_CHECK_PERMISSION.setWidth 16) : Inv (s.sent r) := by
  have hold {c : Call} (hc : c < s.made) : (s.sent r).requestId c = s.requestId c :=
    Function.update_of_ne (Nat.ne_of_lt hc) _ _
  have hfresh : s.made ∉ s.unput := fun hc => Nat.lt_irrefl _ (h.unput_lt _ hc)
  refine ⟨fun c hc => ?_, ?_, ?_, fun c hc => ?_, fun p hp c hc => ?_, fun m hm c hc => ?_,
    fun c hc => ?_, fun k c hk => ?_, fun c hc => ?_, h.invoked, h.once⟩
  · rcases List.mem_append.mp hc with hc | hc
    · exact Nat.lt_succ_of_lt (h.unput_lt c hc)
    · rw [List.mem_singleton.mp hc]
      exact Nat.lt_succ_self _
  · exact List.nodup_append.mpr ⟨h.unput_nodup, List.pairwise_singleton _ _, fun a ha b hb hab =>
      hfresh (List.mem_singleton.mp hb ▸ hab ▸ ha)⟩
  · rw [(origins_sent s r).nodup_iff]
    cases r.packet with
    | none => exact h.nodup
    | some pack =>
      exact List.nodup_cons.mpr ⟨fun hc => Nat.lt_irrefl _ (h.origins_lt _ hc), h.nodup⟩
  · rcases List.mem_append.mp ((origins_sent s r).mem_iff.mp hc) with hc | hc
    · obtain ⟨_, _, rfl⟩ := List.mem_map.mp hc
      exact Nat.lt_succ_self _
    · exact Nat.lt_succ_of_lt (h.origins_lt c hc)
  · rcases List.mem_append.mp hp with hp | hp
    · rw [hold (h.origins_lt c (origin_wire hp hc))]
      exact h.packets p hp c hc
    · obtain ⟨pack, hpack, rfl⟩ := List.mem_map.mp hp
      obtain rfl := Option.some.inj hc
      have hid : (s.sent r).requestId s.made = BitVec.ofInt 64 r.ret := Function.update_self _ _ _
      rw [hid]
      exact hpacket pack (Option.mem_toList.mp hpack)
  · have hmem : c ∈ s.origins := @origin_queue s m hm c hc
    rw [hold (h.origins_lt c hmem)]
    exact h.messages m hm c hc
  · intro hput
    rcases List.mem_append.mp hput with hput | hput
    · exact h.answered_put c hc hput
    · exact Nat.ne_of_lt (h.answered_lt hc) (List.mem_singleton.mp hput)
  · obtain ⟨hw, hid, hpos⟩ := h.entry k c hk
    exact ⟨waiting_sent.mpr hw, (hold hw.lt).trans hid, hpos⟩
  · have hw := waiting_sent.mp hc
    rw [hold hw.lt]
    exact h.waiting c hw

theorem waiting_put (h : Inv s) {c c' : Call} (hc : c ∈ s.unput) :
    (s.put c).Waiting c' ↔ s.Waiting c' ∨ (c' = c ∧ c ∉ s.answered) := by
  constructor
  · rintro ⟨hlt, hput, hanswered⟩
    by_cases hcc : c' = c
    · exact .inr ⟨hcc, hcc ▸ hanswered⟩
    · exact .inl ⟨hlt, fun hmem => hput ((List.mem_erase_of_ne hcc).mpr hmem), hanswered⟩
  · rintro (hw | ⟨rfl, hanswered⟩)
    · exact ⟨hw.lt, fun hmem => hw.put (List.mem_of_mem_erase hmem), hw.unanswered⟩
    · exact ⟨h.unput_lt _ hc, h.unput_nodup.not_mem_erase, hanswered⟩

theorem put (h : Inv s) {c : Call} (hc : c ∈ s.unput) (hpos : 0 < (s.requestId c).toInt)
    (hunshared : ∀ c', s.Waiting c' → s.requestId c' ≠ s.requestId c) : Inv (s.put c) := by
  have hanswered : c ∉ s.answered := fun hmem => h.answered_put c hmem hc
  refine ⟨fun c' hc' => h.unput_lt c' (List.mem_of_mem_erase hc'), h.unput_nodup.erase c, h.nodup,
    h.origins_lt, h.packets, h.messages,
    fun c' hc' hput => h.answered_put c' hc' (List.mem_of_mem_erase hput), fun k c' hk => ?_,
    fun c' hw => ?_, h.invoked, h.once⟩
  · by_cases hkey : k = s.requestId c
    · subst hkey
      have hself : (s.put c).funcRetCallback (s.requestId c) = some c := Function.update_self _ _ _
      obtain rfl := Option.some.inj (hself.symm.trans hk)
      exact ⟨(h.waiting_put hc).mpr (.inr ⟨rfl, hanswered⟩), rfl, hpos⟩
    · have hother : (s.put c).funcRetCallback k = s.funcRetCallback k :=
        Function.update_of_ne hkey _ _
      obtain ⟨hw, hid, hpos'⟩ := h.entry k c' (hother ▸ hk)
      exact ⟨(h.waiting_put hc).mpr (.inl hw), hid, hpos'⟩
  · rcases (h.waiting_put hc).mp hw with hw | ⟨rfl, -⟩
    · have hother : (s.put c).funcRetCallback (s.requestId c') = s.funcRetCallback (s.requestId c') :=
        Function.update_of_ne (hunshared c' hw) _ _
      exact hother.trans (h.waiting c' hw)
    · exact Function.update_self _ _ _

theorem moved (h : Inv s) {wire : List Packet} {queue : List Message}
    (hnodup : (wire.filterMap (·.call) ++ (queue.filterMap (·.call) ++ s.answered)).Nodup)
    (hsub : ∀ c ∈ wire.filterMap (·.call) ++ (queue.filterMap (·.call) ++ s.answered), c ∈ s.origins)
    (hpackets : ∀ p ∈ wire, ∀ c, p.call = some c →
      (AMCReqHeader.decode p.bytes).requestid = s.requestId c ∧
        (AMCReqHeader.decode p.bytes).funcid = FUNC_CHECK_PERMISSION.setWidth 16)
    (hmessages : ∀ m ∈ queue, ∀ c, m.call = some c →
      m.info.requestid = s.requestId c ∧ ToRequestCallback m.info) :
    Inv { s with wire := wire, queue := queue } where
  unput_lt := h.unput_lt
  unput_nodup := h.unput_nodup
  nodup := hnodup
  origins_lt := fun c hc => h.origins_lt c (hsub c hc)
  packets := hpackets
  messages := hmessages
  answered_put := h.answered_put
  entry := fun k c hk => by
    obtain ⟨hw, hid⟩ := h.entry k c hk
    exact ⟨⟨hw.lt, hw.put, hw.unanswered⟩, hid⟩
  waiting := fun c hw => h.waiting c ⟨hw.lt, hw.put, hw.unanswered⟩
  invoked := h.invoked
  once := h.once

theorem serve (h : Inv s) {i : Nat} {p : Packet} {resp : C2JavaCall} (hp : s.wire[i]? = some p)
    (hid : resp.requestid = (AMCReqHeader.decode p.bytes).requestid)
    (hfuncid : resp.funcid = (AMCReqHeader.decode p.bytes).funcid.setWidth 32) :
    Inv { s with wire := s.wire.eraseIdx i, queue := s.queue ++ [⟨p.call, resp⟩] } := by
  obtain ⟨hi, hget⟩ := List.getElem?_eq_some_iff.mp hp
  have hmem : p ∈ s.wire := hget ▸ List.getElem_mem hi
  have hwire : (p :: s.wire.eraseIdx i).Perm s.wire := hget ▸ List.getElem_cons_eraseIdx_perm hi
  have hperm : ((s.wire.eraseIdx i).filterMap (·.call) ++
      ((s.queue ++ [(⟨p.call, resp⟩ : Message)]).filterMap (·.call) ++ s.answered)).Perm
      s.origins := by
    have hcalls : (p.call.toList ++ (s.wire.eraseIdx i).filterMap (·.call)).Perm
        (s.wire.filterMap (·.call)) := by
      have hmap := hwire.filterMap (·.call)
      cases hcall : p.call with
      | none => simpa [hcall] using hmap
      | some c => simpa [hcall] using hmap
    have hnew : [(⟨p.call, resp⟩ : Message)].filterMap (·.call) = p.call.toList := by
      cases p.call <;> rfl
    rw [List.filterMap_append, hnew, List.append_assoc]
    refine .trans ?_ (hcalls.append_right _)
    rw [List.append_assoc]
    exact ((List.perm_append_comm_assoc _ _ _).append_left _).trans (List.perm_append_comm_assoc _ _ _)
  refine h.moved (hperm.nodup_iff.mpr h.nodup) (fun c hc => hperm.mem_iff.mp hc)
    (fun q hq => h.packets q (List.mem_of_mem_eraseIdx hq)) fun m hm c hc => ?_
  rcases List.mem_append.mp hm with hm | hm
  · exact h.messages m hm c hc
  · obtain rfl := List.mem_singleton.mp hm
    obtain ⟨hpid, hpfunc⟩ := h.packets p hmem c hc
    exact ⟨hid.trans hpid, toRequestCallback_checkPermission (hfuncid.trans (by rw [hpfunc]))⟩

theorem lose (h : Inv s) (i : Nat) : Inv { s with wire := s.wire.eraseIdx i } := by
  have hsub : ((s.wire.eraseIdx i).filterMap (·.call) ++
      (s.queue.filterMap (·.call) ++ s.answered)).Sublist s.origins :=
    ((List.eraseIdx_sublist _ _).filterMap _).append_right _
  exact h.moved (h.nodup.sublist hsub) (fun c hc => hsub.subset hc)
    (fun p hp => h.packets p (List.mem_of_mem_eraseIdx hp)) h.messages

theorem request (h : Inv s) (packet : Option (List UInt8)) :
    Inv { s with wire := s.wire ++ packet.toList.map fun bytes => ⟨none, bytes⟩ } := by
  have hcalls : (s.wire ++ packet.toList.map fun bytes => (⟨none, bytes⟩ : Packet)).filterMap
      (·.call) = s.wire.filterMap (·.call) := by
    cases packet <;> simp
  refine h.moved (by rw [hcalls]; exact h.nodup) (fun c hc => by rwa [hcalls] at hc)
    (fun p hp c hc => ?_) h.messages
  rcases List.mem_append.mp hp with hp | hp
  · exact h.packets p hp c hc
  · obtain ⟨_, _, rfl⟩ := List.mem_map.mp hp
    cases hc

theorem event (h : Inv s) (info : C2JavaCall) :
    Inv { s with queue := s.queue ++ [⟨none, info⟩] } := by
  have hcalls : (s.queue ++ [(⟨none, info⟩ : Message)]).filterMap (·.call) =
      s.queue.filterMap (·.call) := by simp
  refine h.moved (by rw [hcalls]; exact h.nodup) (fun c hc => by rwa [hcalls] at hc) h.packets
    fun m hm c hc => ?_
  rcases List.mem_append.mp hm with hm | hm
  · exact h.messages m hm c hc
  · obtain rfl := List.mem_singleton.mp hm
    cases hc

section OnData
variable {m : Message} {queue : List Message} (h : Inv s) (hqueue : s.queue = m :: queue)
include h hqueue

theorem onData_foreign (hcall : m.call = none)
    (hforeign : ToRequestCallback m.info → ∀ c, s.Waiting c → s.requestId c ≠ m.info.requestid) :
    Inv (Sys.onData { s with queue := queue } m) := by
  have hcalls : s.queue.filterMap (·.call) = queue.filterMap (·.call) := by
    rw [hqueue, List.filterMap_cons, hcall]
  have hnodup := h.nodup
  unfold Sys.origins at hnodup
  rw [hcalls] at hnodup
  have hrest : Inv { s with queue := queue } :=
    h.moved hnodup (fun c hc => by unfold Sys.origins; rwa [hcalls]) h.packets
      fun m' hm' => h.messages m' (hqueue ▸ List.mem_cons_of_mem _ hm')
  unfold Sys.onData
  split
  · rename_i hto
    have hnone : s.funcRetCallback m.info.requestid = none := by
      cases hentry : s.funcRetCallback m.info.requestid with
      | none => rfl
      | some c =>
        obtain ⟨hw, hid, -⟩ := h.entry _ c hentry
        exact absurd hid (hforeign hto c hw)
    have hupdate : Function.update s.funcRetCallback m.info.requestid none = s.funcRetCallback :=
      Function.update_eq_self_iff.mpr hnone.symm
    have hsame : Sys.onRequestCallback { s with queue := queue } m = { s with queue := queue } := by
      simp only [Sys.onRequestCallback, hnone, hcall, Option.toList_none, List.map_nil,
        List.append_nil, hupdate]
    rw [hsame]
    exact hrest
  · exact ⟨hrest.unput_lt, hrest.unput_nodup, hrest.nodup, hrest.origins_lt, hrest.packets,
      hrest.messages, hrest.answered_put, fun k c hk => by
        obtain ⟨hw, hid⟩ := hrest.entry k c hk
        exact ⟨⟨hw.lt, hw.put, hw.unanswered⟩, hid⟩,
      fun c hw => hrest.waiting c ⟨hw.lt, hw.put, hw.unanswered⟩, hrest.invoked, hrest.once⟩

theorem onData_own {c : Call} (hcall : m.call = some c) (hput : c ∉ s.unput) :
    Inv (Sys.onData { s with queue := queue } m) := by
  have hm : m ∈ s.queue := hqueue ▸ List.mem_cons_self
  obtain ⟨hid, hto⟩ := h.messages m hm c hcall
  have hlt : c < s.made := h.origins_lt c (origin_queue hm hcall)
  have hcalls : s.queue.filterMap (·.call) = c :: queue.filterMap (·.call) := by
    rw [hqueue, List.filterMap_cons, hcall]
  have hnodup := h.nodup
  unfold Sys.origins at hnodup
  rw [hcalls] at hnodup
  have hunanswered : c ∉ s.answered := fun hc =>
    (List.nodup_cons.mp (List.nodup_append.mp hnodup).2.1).1 (List.mem_append_right _ hc)
  have hentry : s.funcRetCallback (s.requestId c) = some c := h.waiting c ⟨hlt, hput, hunanswered⟩
  have hperm : (s.wire.filterMap (·.call) ++
      (queue.filterMap (·.call) ++ (s.answered ++ [c]))).Perm s.origins := by
    unfold Sys.origins
    rw [hcalls, List.cons_append]
    refine List.Perm.append_left _ ?_
    rw [← List.append_assoc]
    exact List.perm_append_singleton _ _
  have hdata : Sys.onData { s with queue := queue } m = { s with
      queue := queue
      funcRetCallback := Function.update s.funcRetCallback (s.requestId c) none
      answered := s.answered ++ [c]
      invoked := s.invoked ++ [(c, some c)] } := by
    simp only [Sys.onData, if_pos hto, Sys.onRequestCallback, hid, hentry, hcall,
      Option.toList_some, List.map_cons, List.map_nil]
  rw [hdata]
  have hnone : c ∉ s.invoked.map Prod.fst := by
    rw [List.mem_map]
    rintro ⟨⟨c', o⟩, hmem, rfl⟩
    exact hunanswered (h.invoked _ o hmem).2
  refine ⟨h.unput_lt, h.unput_nodup, hperm.nodup_iff.mpr h.nodup,
    fun c' hc' => h.origins_lt c' (hperm.mem_iff.mp hc'), h.packets,
    fun m' hm' => h.messages m' (hqueue ▸ List.mem_cons_of_mem _ hm'), fun c' hc' => ?_,
    fun k c' hk => ?_, fun c' hw => ?_, fun c' o hco => ?_, fun c' hc' => ?_⟩
  · rcases List.mem_append.mp hc' with hc' | hc'
    · exact h.answered_put c' hc'
    · exact List.mem_singleton.mp hc' ▸ hput
  · dsimp only at hk
    by_cases hkey : k = s.requestId c
    · rw [hkey, Function.update_self] at hk
      cases hk
    · rw [Function.update_of_ne hkey] at hk
      obtain ⟨hw, hid', hpos⟩ := h.entry k c' hk
      refine ⟨⟨hw.lt, hw.put, fun hc' => ?_⟩, hid', hpos⟩
      rcases List.mem_append.mp hc' with hc' | hc'
      · exact hw.unanswered hc'
      · exact hkey (hid'.symm.trans (by rw [List.mem_singleton.mp hc']))
  · have hne : c' ≠ c := fun hc' =>
      hw.unanswered (List.mem_append_right _ (List.mem_singleton.mpr hc'))
    have hold := h.waiting c' ⟨hw.lt, hw.put, fun hc' =>
      hw.unanswered (List.mem_append_left _ hc')⟩
    have hkey : s.requestId c' ≠ s.requestId c := fun hkey =>
      hne (Option.some.inj (hold.symm.trans (hkey ▸ hentry)))
    exact (Function.update_of_ne hkey _ _).trans hold
  · rcases List.mem_append.mp hco with hco | hco
    · exact ⟨(h.invoked c' o hco).1, List.mem_append_left _ (h.invoked c' o hco).2⟩
    · obtain ⟨rfl, rfl⟩ := Prod.mk.inj (List.mem_singleton.mp hco)
      exact ⟨rfl, List.mem_append_right _ (List.mem_singleton.mpr rfl)⟩
  · dsimp only
    rw [List.map_append, List.count_append]
    rcases List.mem_append.mp hc' with hc' | hc'
    · have hne : c' ≠ c := fun heq => hunanswered (heq ▸ hc')
      rw [h.once c' hc', List.map_singleton, List.count_eq_zero_of_not_mem]
      exact fun hmem => hne (List.mem_singleton.mp hmem)
    · obtain rfl := List.mem_singleton.mp hc'
      rw [List.count_eq_zero_of_not_mem hnone]
      simp

end OnData

theorem step {a : Action} (h : Inv s) (ht : Timely s a)
    (hstep : HardCoderJNI.step s a = some s') : Inv s' := by
  cases a with
  | checkPermission env mem manufactures certs pid uid tid timestamp =>
    simp only [HardCoderJNI.step] at hstep
    split at hstep
    · obtain rfl := Option.some.inj hstep
      exact h
    · obtain rfl := Option.some.inj hstep
      exact h.sent fun pack hpack => checkPermission_header hpack
  | put c =>
    simp only [HardCoderJNI.step] at hstep
    split at hstep
    · rename_i hc
      obtain rfl := Option.some.inj hstep
      obtain ⟨hpos, hunshared⟩ := ht hc
      exact h.put hc hpos fun c' hw => hunshared c' hw.lt hw
    · cases hstep
  | request env mem call =>
    obtain ⟨r, -, rfl⟩ := Option.map_eq_some_iff.mp hstep
    exact h.request r.packet
  | lose i =>
    simp only [HardCoderJNI.step] at hstep
    split at hstep
    · obtain rfl := Option.some.inj hstep
      exact h.lose i
    · cases hstep
  | serve i resp =>
    simp only [HardCoderJNI.step] at hstep
    split at hstep
    · cases hstep
    · rename_i p hp
      split at hstep
      · rename_i hresp
        obtain rfl := Option.some.inj hstep
        exact h.serve hp hresp.1 hresp.2
      · cases hstep
  | event info =>
    simp only [HardCoderJNI.step] at hstep
    split at hstep
    · obtain rfl := Option.some.inj hstep
      exact h.event info
    · cases hstep
  | onData =>
    simp only [HardCoderJNI.step] at hstep
    split at hstep
    · cases hstep
    · rename_i m queue hqueue
      obtain rfl := Option.some.inj hstep
      obtain ⟨hput, hforeign⟩ := ht m (by rw [hqueue]; rfl)
      cases hcall : m.call with
      | none => exact h.onData_foreign hqueue hcall fun hto c hw => hforeign hcall hto c hw.lt hw
      | some c => exact h.onData_own hqueue hcall (hput c hcall)

end Inv

/-- In every run whose steps are timely each callback is invoked for its own response,
exactly once, and no entry is left behind. -/
theorem callbackOnce_of_timely {as : List Action} {s : Sys} (hrun : run step init as = some s)
    (htimely : Along step Timely init as) : Good s :=
  (run_invariant Inv.step inv_init htimely hrun).good

/-- The engine reports its connection. -/
def connectEvents : List Action :=
  [.event ⟨CALLBACK_TYPE_STATUS, 0, 0, CLIENT_CONNECT, FUNC_LOCAL, 0, none, 0⟩, .onData]

/-- A call whose clock reads one second, without certificates. -/
def exampleCall : Action :=
  .checkPermission exampleClient exampleMemory ⟨[], by decide⟩ ⟨[], by decide⟩ 1 10000 7 9

/-- The response to the first request on the wire. -/
def exampleServe : Action :=
  .serve 0 ⟨CALLBACK_TYPE_STATUS, 1000000, 0, 0, FUNC_CHECK_PERMISSION, 0, none, 0⟩

theorem callbackOnce_of_timely_put : ∃ s,
    run step init (connectEvents ++ [exampleCall, .put 0, exampleServe, .onData]) = some s ∧
      Good s := by
  have hsome : (run step init
      (connectEvents ++ [exampleCall, .put 0, exampleServe, .onData])).isSome := by decide +kernel
  obtain ⟨s, hs⟩ := Option.isSome_iff_exists.mp hsome
  exact ⟨s, hs, callbackOnce_of_timely hs (along_of_check (by decide +kernel))⟩

/-- The response is processed between the send and the put: the callback is never
invoked, and its entry stays. -/
theorem callback_lost : ∃ s,
    run step init (connectEvents ++ [exampleCall, exampleServe, .onData, .put 0]) = some s ∧
      s.answered = [0] ∧ s.invoked = [] ∧ s.funcRetCallback 1000000 = some 0 ∧ ¬ Good s := by
  have hrun : (run step init (connectEvents ++ [exampleCall, exampleServe, .onData, .put 0])).map
      (fun s => (s.answered, s.invoked, s.funcRetCallback 1000000)) = some ([0], [], some 0) := by
    decide +kernel
  obtain ⟨s, hs, hstate⟩ := Option.map_eq_some_iff.mp hrun
  simp only [Prod.mk.injEq] at hstate
  obtain ⟨hanswered, hinvoked, hentry⟩ := hstate
  refine ⟨s, hs, hanswered, hinvoked, hentry, fun h => ?_⟩
  have hone := h.once 0 (by rw [hanswered]; decide)
  rw [hinvoked] at hone
  cases hone

end HardCoderJNI

end Hardcoder
