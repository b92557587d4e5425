import Hardcoder.ServerResponses

/-! A payload that does not parse as the message of its operation, at
`ServerDataWorker::processReceive` (protocol.h). -/

namespace Hardcoder
set_option autoImplicit false

/-- The operations that carry a message, each with whether a body parses as it. -/
def Protobuf.messages (pb : Protobuf) : List (BitVec 32 × (List UInt8 → Bool)) :=
  [(FUNC_CHECK_PERMISSION, fun body => (pb.CheckPermission.ParseFromArray body).1),
   (FUNC_UNIFY_CPU_IO_THREAD_CORE_GPU, fun body =>
     (pb.RequestUnifyCPUIOThreadCore.ParseFromArray body).1),
   (FUNC_CANCEL_UNIFY_CPU_IO_THREAD_CORE_GPU, fun body =>
     (pb.CancelUnifyCPUIOThreadCore.ParseFromArray body).1),
   (FUNC_CPU_HIGH_FREQ, fun body => (pb.RequestCPUHighFreq.ParseFromArray body).1),
   (FUNC_GPU_HIGH_FREQ, fun body => (pb.RequestGPUHighFreq.ParseFromArray body).1),
   (FUNC_CPU_CORE_FOR_THREAD, fun body => (pb.RequestCPUCoreForThread.ParseFromArray body).1),
   (FUNC_CANCEL_CPU_CORE_FOR_THREAD, fun body => (pb.CancelCPUCoreForThread.ParseFromArray body).1),
   (FUNC_HIGH_IO_FREQ, fun body => (pb.RequestHighIOFreq.ParseFromArray body).1),
   (FUNC_SET_SCREEN_RESOLUTION, fun body => (pb.RequestScreenResolution.ParseFromArray body).1),
   (FUNC_REG_SYSTEM_EVENT_CALLBACK, fun body => (pb.RegisterCallback.ParseFromArray body).1),
   (FUNC_REG_ANR_CALLBACK, fun body => (pb.RegisterCallback.ParseFromArray body).1),
   (FUNC_REG_PRELOAD_BOOT_RESOURCE, fun body =>
     (pb.RequestBootPreLoadResource.ParseFromArray body).1),
   (FUNC_CONFIGURE, fun body => (pb.Configuration.ParseFromArray body).1),
   (FUNC_GET_PARAMETERS, fun body => (pb.GetParameters.ParseFromArray body).1)]

/-- The operation carries a message, and `body` is not one. -/
def Protobuf.Undecodable (pb : Protobuf) (funcid : BitVec 32) (body : List UInt8) : Prop :=
  ∃ m ∈ pb.messages, m.1 = funcid ∧ m.2 body = false

instance (pb : Protobuf) (funcid : BitVec 32) (body : List UInt8) :
    Decidable (pb.Undecodable funcid body) :=
  inferInstanceAs (Decidable (∃ m ∈ pb.messages, m.1 = funcid ∧ m.2 body = false))

/-- The operations whose branch goes on without looking at what the parser returned. -/
def unchecked : List (BitVec 32) :=
  [FUNC_CHECK_PERMISSION, FUNC_REG_SYSTEM_EVENT_CALLBACK, FUNC_REG_ANR_CALLBACK, FUNC_CONFIGURE,
    FUNC_GET_PARAMETERS]

namespace ServerEnv
variable (env : ServerEnv) (pHead : AMCReqHeader)

/-- No handler is called, and the response is this operation's, for this request. -/
structure Answered (respResult : JInt) (p : Processed) : Prop where
  call : p.call = none
  resp : ∃ pack, (p.resp.bind (·.outPack)) = some pack ∧
    (AMCRespHeader.decode pack).retCode = respResult ∧
    (AMCRespHeader.decode pack).funcid = pHead.funcid ∧
    (AMCRespHeader.decode pack).requestid = pHead.requestid

section Answered
variable {env pHead}

theorem answered_respond_iff {respResult : JInt} :
    Answered pHead respResult (respond env pHead none respResult) ↔
      HEADER_PROTOCAL_VERSION ≤ env.HEADER_VERSION := by
  constructor
  · rintro ⟨-, pack, hpack, -⟩
    by_contra hold
    simp only [respond] at hpack
    rw [genRespPack_old (BitVec.not_le.mp hold)] at hpack
    cases hpack
  · intro hv
    obtain ⟨rest, outLen, hgen⟩ := @genRespPack_spec env.HEADER_VERSION env.heap env.ts
      pHead.funcid respResult pHead.requestid none 0 hv
    refine ⟨rfl, (respHeader env.HEADER_VERSION env.ts (pHead.funcid.setWidth 32) respResult
      pHead.requestid 0).encode ++ rest, ?_, ?_⟩
    · simp only [respond, Option.bind_some, hgen]
    · rw [AMCRespHeader.decode_encode_append]
      exact ⟨rfl, BitVec.eq_of_toNat_eq (by simp [respHeader]), rfl⟩

theorem answered_respond_ne {respResult code : JInt} (h : code ≠ respResult) :
    ¬ Answered pHead respResult (respond env pHead none code) := by
  rintro ⟨hcall, pack, hpack, hret, -⟩
  by_cases hv : HEADER_PROTOCAL_VERSION ≤ env.HEADER_VERSION
  · have hanswered : Answered pHead code (respond env pHead none code) :=
      answered_respond_iff.mpr hv
    obtain ⟨-, pack', hpack', hret', -⟩ := hanswered
    rw [hpack] at hpack'
    obtain rfl := Option.some.inj hpack'
    exact h (hret'.symm.trans hret)
  · simp only [respond] at hpack
    rw [genRespPack_old (BitVec.not_le.mp hv)] at hpack
    cases hpack

end Answered

section Undecodable
variable {env pHead} {uid : JInt} {body : List UInt8} {FUNC : BitVec 32}

/-- An operation that looks at the parser's result refuses the body. -/
theorem dispatch_checked {M : Type} {parsed : Bool × M} (hf : FUNC = pHead.funcid.setWidth 32)
    (hmem : FUNC ∉ unchecked)
    (hd : ∃ c, dispatch env pHead uid body = handleParsed env pHead parsed c)
    (hparsed : parsed.1 = false) :
    pHead.funcid.setWidth 32 ∉ unchecked ∧
      dispatch env pHead uid body = respond env pHead none ERR_PACKAGE_DECODE_FAILED := by
  obtain ⟨c, hd⟩ := hd
  rw [hd, handleParsed, hparsed, ← hf]
  exact ⟨hmem, rfl⟩

/-- Nine operations refuse such a body; the other five call their handler with it. -/
theorem dispatch_undecodable (uid : JInt) (h : env.pb.Undecodable (pHead.funcid.setWidth 32) body) :
    (pHead.funcid.setWidth 32 ∈ unchecked ∧ ∃ c, (dispatch env pHead uid body).call = some c) ∨
    (pHead.funcid.setWidth 32 ∉ unchecked ∧
      dispatch env pHead uid body = respond env pHead none ERR_PACKAGE_DECODE_FAILED) := by
  obtain ⟨m, hm, hf, hbody⟩ := h
  simp only [Protobuf.messages, List.mem_cons, List.not_mem_nil, or_false] at hm
  rcases hm with rfl | rfl | rfl | rfl | rfl | rfl | rfl | rfl | rfl | rfl | rfl | rfl | rfl | rfl <;> dsimp only at hf hbody
  · left
    refine ⟨hf ▸ by decide, ?_⟩
    simp +decide only [dispatch, ← hf, ↓reduceIte]
    exact ⟨_, rfl⟩
  · right
    refine dispatch_checked hf (by decide) ?_ hbody
    simp +decide only [dispatch, ← hf, ↓reduceIte]
    exact ⟨_, rfl⟩
  · right
    refine dispatch_checked hf (by decide) ?_ hbody
    simp +decide only [dispatch, ← hf, ↓reduceIte]
    exact ⟨_, rfl⟩
  · right
    refine dispatch_checked hf (by decide) ?_ hbody
    simp +decide only [dispatch, ← hf, ↓reduceIte]
    exact ⟨_, rfl⟩
  · right
    refine dispatch_checked hf (by decide) ?_ hbody
    simp +decide only [dispatch, ← hf, ↓reduceIte]
    exact ⟨_, rfl⟩
  · right
    refine dispatch_checked hf (by decide) ?_ hbody
    simp +decide only [dispatch, ← hf, ↓reduceIte]
    exact ⟨_, rfl⟩
  · right
    refine dispatch_checked hf (by decide) ?_ hbody
    simp +decide only [dispatch, ← hf, ↓reduceIte]
    exact ⟨_, rfl⟩
  · right
    refine dispatch_checked hf (by decide) ?_ hbody
    simp +decide only [dispatch, ← hf, ↓reduceIte]
    exact ⟨_, rfl⟩
  · right
    refine dispatch_checked hf (by decide) ?_ hbody
    simp +decide only [dispatch, ← hf, ↓reduceIte]
    exact ⟨_, rfl⟩
  · left
    refine ⟨hf ▸ by decide, ?_⟩
    simp +decide only [dispatch, ← hf, ↓reduceIte]
    exact ⟨_, rfl⟩
  · left
    refine ⟨hf ▸ by decide, ?_⟩
    simp +decide only [dispatch, ← hf, ↓reduceIte]
    exact ⟨_, rfl⟩
  · right
    refine dispatch_checked hf (by decide) ?_ hbody
    simp +decide only [dispatch, ← hf, ↓reduceIte]
    exact ⟨_, rfl⟩
  · left
    refine ⟨hf ▸ by decide, ?_⟩
    simp +decide only [dispatch, ← hf, ↓reduceIte]
    exact ⟨_, rfl⟩
  · left
    refine ⟨hf ▸ by decide, ?_⟩
    simp +decide only [dispatch, ← hf, ↓reduceIte]
    exact ⟨_, rfl⟩

end Undecodable

/-- What the server must be given for an undecodable payload to be refused. -/
structure Refusing (payload : Option (List UInt8)) (payloadLen : BitVec 32) : Prop where
  payload : payload = none → payloadLen = 0
  current : HEADER_PROTOCAL_VERSION ≤ pHead.version
  server : HEADER_PROTOCAL_VERSION ≤ env.HEADER_VERSION
  checked : pHead.funcid.setWidth 32 ∉ unchecked

theorem undecodable_answered_iff_refusing (uid : JInt) {payload : Option (List UInt8)}
    {payloadLen : BitVec 32}
    (h : env.pb.Undecodable (pHead.funcid.setWidth 32) (copied payload payloadLen)) :
    Answered pHead ERR_PACKAGE_DECODE_FAILED (env.processReceive pHead uid payload payloadLen) ↔
      Refusing env pHead payload payloadLen := by
  unfold processReceive
  by_cases hnull : payload = none ∧ payloadLen ≠ 0
  · rw [if_pos hnull]
    constructor
    · rintro ⟨-, pack, hpack, -⟩
      cases hpack
    · exact fun hr => absurd (hr.payload hnull.1) hnull.2
  rw [if_neg hnull]
  have hpayload : payload = none → payloadLen = 0 := fun hn => by
    by_contra hne
    exact hnull ⟨hn, hne⟩
  by_cases hold : pHead.version < HEADER_PROTOCAL_VERSION
  · rw [if_pos hold]
    constructor
    · exact fun ha => absurd ha (answered_respond_ne (by decide))
    · exact fun hr => absurd hold (BitVec.not_lt.mpr hr.current)
  rw [if_neg hold]
  rcases dispatch_undecodable uid h with ⟨hmem, c, hcall⟩ | ⟨hmem, hdispatch⟩
  · constructor
    · intro ha
      rw [ha.call] at hcall
      cases hcall
    · exact fun hr => absurd hmem hr.checked
  · rw [hdispatch, answered_respond_iff]
    exact ⟨fun hv => ⟨hpayload, BitVec.not_lt.mp hold, hv, hmem⟩, Refusing.server⟩

/-- A `requestCpuHighFreq` whose body ends inside a field. -/
theorem undecodable_answered_iff_refusing_cpu :
    Answered (reqHeader 4 ⟨0, 1⟩ FUNC_CPU_HIGH_FREQ 1 7 9) ERR_PACKAGE_DECODE_FAILED
      (exampleServer.processReceive (reqHeader 4 ⟨0, 1⟩ FUNC_CPU_HIGH_FREQ 1 7 9) 10000 (some [8]) 1) ↔
      Refusing exampleServer (reqHeader 4 ⟨0, 1⟩ FUNC_CPU_HIGH_FREQ 1 7 9) (some [8]) 1 :=
  undecodable_answered_iff_refusing exampleServer _ 10000 (by decide +kernel)

/-- A registration whose body ends inside a field reaches its handler, for the user 0. -/
theorem undecodable_registers :
    exampleServer.pb.Undecodable FUNC_REG_ANR_CALLBACK [8] ∧
    (exampleServer.processReceive (reqHeader 4 ⟨0, 1⟩ FUNC_REG_ANR_CALLBACK 1 7 9) 10000
      (some [8]) 1).call = some (.registerAnrCallback 0 7 9) ∧
    ¬ Answered (reqHeader 4 ⟨0, 1⟩ FUNC_REG_ANR_CALLBACK 1 7 9) ERR_PACKAGE_DECODE_FAILED
      (exampleServer.processReceive (reqHeader 4 ⟨0, 1⟩ FUNC_REG_ANR_CALLBACK 1 7 9) 10000
        (some [8]) 1) := by
  have hcall : (exampleServer.processReceive (reqHeader 4 ⟨0, 1⟩ FUNC_REG_ANR_CALLBACK 1 7 9) 10000
      (some [8]) 1).call = some (.registerAnrCallback 0 7 9) := by decide +kernel
  refine ⟨by decide +kernel, hcall, fun ha => ?_⟩
  rw [ha.call] at hcall
  cases hcall

end ServerEnv

end Hardcoder
