import Hardcoder.RequestFidelity

/-! What becomes of a request that `LocalSocketServer::recvEvent` has assembled: the
handler called for it and the response put into `respQueue` (server.h). -/

namespace Hardcoder
open Stream
set_option autoImplicit false

/-- What `processReceive` leaves in its `ServerDataWorker`; a null `resp` is `none`. -/
structure ServerDataWorker (T : Type) where
  remote : T
  resp : Option (List UInt8)
  respLen : BitVec 32
deriving DecidableEq, Repr

namespace Processed
variable {T : Type}

/-- The value `processReceive` returns. -/
def ret (p : Processed) : Int := (p.resp.map (·.ret)).getD (-1)

def worker (p : Processed) (remote : T) : ServerDataWorker T where
  remote := remote
  resp := p.resp.bind (·.outPack)
  respLen := (p.resp.map (·.outLen)).getD 0

/-- `if (requestId < 0) { delete pp; } else { respQueue.push(pp); }` -/
def pushed (p : Processed) (remote : T) : List (ServerDataWorker T) :=
  if p.ret < 0 then [] else [p.worker remote]

end Processed

namespace ServerEnv
variable (env : ServerEnv) (uid : JInt)

/-- `pp->processReceive(uid, &fd, pHeader, recvCache->reqPayload, pHeader->bodylen, inst)` -/
def processFrame (f : ReqFrame UInt8) : Processed :=
  env.processReceive f.pHead uid f.payload f.payloadLen

/-- One response goes to `remote`, for this request, and at most one handler was called. -/
structure OneResponse {T : Type} (remote : T) (f : ReqFrame UInt8) : Prop where
  pushed : ∃ w, (env.processFrame uid f).pushed remote = [w] ∧ w.remote = remote ∧
    ∃ resp, w.resp = some resp ∧ (AMCRespHeader.decode resp).funcid = f.pHead.funcid ∧
      (AMCRespHeader.decode resp).requestid = f.pHead.requestid
  handlers : (env.processFrame uid f).call.toList.length ≤ 1

section Responds
variable {env} {pHead : AMCReqHeader}

/-- `p` holds a response to the request with the header `pHead`, of any result. -/
def Responds (env : ServerEnv) (pHead : AMCReqHeader) (p : Processed) : Prop :=
  ∃ respResult, p.resp = some (genRespPack env.HEADER_VERSION env.heap env.ts
    (pHead.funcid.setWidth 32) respResult pHead.requestid none 0)

theorem responds_respond (call : Option HardCoderCall) (respResult : JInt) :
    Responds env pHead (respond env pHead call respResult) := ⟨respResult, rfl⟩

theorem responds_handle (c : HardCoderCall) : Responds env pHead (handle env pHead c) :=
  responds_respond (some c) _

theorem responds_handleParsed {M : Type} (parsed : Bool × M) (c : M → HardCoderCall) :
    Responds env pHead (handleParsed env pHead parsed c) := by
  unfold handleParsed
  split
  · exact responds_handle _
  · exact responds_respond none _

theorem responds_ite {c : Prop} [Decidable c] {p q : Processed} (hp : Responds env pHead p)
    (hq : Responds env pHead q) : Responds env pHead (if c then p else q) := by
  split
  · exact hp
  · exact hq

theorem responds_dispatch (body : List UInt8) :
    Responds env pHead (dispatch env pHead uid body) := by
  unfold dispatch
  dsimp only
  repeat
    first
    | exact responds_respond _ _
    | exact responds_handle _
    | refine responds_ite ?_ ?_
    | exact responds_handleParsed _ _

theorem responds_processReceive {payload : Option (List UInt8)} {payloadLen : BitVec 32}
    (h : payload = none → payloadLen = 0) :
    Responds env pHead (env.processReceive pHead uid payload payloadLen) := by
  have hnull : ¬ (payload = none ∧ payloadLen ≠ 0) := fun ⟨hn, hl⟩ => hl (h hn)
  unfold processReceive
  rw [if_neg hnull]
  split
  · exact responds_respond none _
  · exact responds_dispatch uid _

end Responds

end ServerEnv

section Frames
variable {α : Type} {val : α → UInt8}

/-- A null payload is handed on with the length 0 only. -/
def ReqFrame.NullEmpty (f : ReqFrame α) : Prop := f.payload = none → f.payloadLen = 0

theorem recvPass_nullEmpty {d : Delivery α} {left pos pos' : Nat} {cache : RecvCache α}
    {f : ReqFrame α} (h : recvPass val d left pos cache = .dispatch pos' f) : f.NullEmpty := by
  simp only [recvPass] at h
  split at h
  · cases h
  split at h
  · cases h
  split at h
  · split at h
    · cases h
    · split at h
      · cases h
      · cases h
        exact fun hnone => absurd hnone (by simp)
  · cases h
    rename_i hlen
    intro hnone
    simp only at hnone
    simp only [RecvCache.reqPayloadOffset, hnone, Option.getD_none, List.length_nil] at hlen
    exact BitVec.eq_of_toNat_eq (Nat.eq_zero_of_not_pos hlen)

theorem recvLoop_nullEmpty {d : Delivery α} {fuel : Nat} :
    ∀ {pos : Nat} {cache : Option (RecvCache α)} {r : RecvResult α},
      recvLoop val d fuel pos cache = some r → ∀ f ∈ r.frames, f.NullEmpty := by
  induction fuel with
  | zero => exact fun h => absurd h (by simp [recvLoop])
  | succ fuel ih =>
    intro pos cache r h f hf
    simp only [recvLoop] at h
    split at h
    · obtain rfl := Option.some.inj h
      cases hf
    · cases hpass : recvPass val d (readLeft d.bytes.length pos) pos (cache.getD .new) with
      | wait cache =>
        rw [hpass] at h
        obtain rfl := Option.some.inj h
        cases hf
      | refuse =>
        rw [hpass] at h
        obtain rfl := Option.some.inj h
        cases hf
      | fault =>
        rw [hpass] at h
        cases h
      | dispatch pos' g =>
        rw [hpass] at h
        obtain ⟨s, hs, rfl⟩ := Option.map_eq_some_iff.mp h
        rcases List.mem_cons.mp hf with rfl | hf
        · exact recvPass_nullEmpty hpass
        · exact ih hs f hf

theorem recvEvents_nullEmpty {fuel : Nat} {ds : List (Delivery α)} :
    ∀ {cache : Option (RecvCache α)} {s : Option (RecvCache α) × List (ReqFrame α)},
      recvEvents val fuel cache ds = some s → ∀ f ∈ s.2, f.NullEmpty := by
  induction ds with
  | nil =>
    intro cache s h f hf
    obtain rfl := Option.some.inj h
    cases hf
  | cons d ds ih =>
    intro cache s h f hf
    obtain ⟨r, hr, h⟩ := Option.bind_eq_some_iff.mp h
    obtain ⟨t, ht, rfl⟩ := Option.map_eq_some_iff.mp h
    rcases List.mem_append.mp hf with hf | hf
    · exact recvLoop_nullEmpty hr f hf
    · exact ih ht f hf

end Frames

section GenRespPack
variable {HEADER_VERSION : BitVec 16} {heap : Uninit} {ts : TimeSpec} {funcid : BitVec 16}
  {retCode : BitVec 32} {requestId : BitVec 64} {data : Option (List UInt8)} {dataLen : BitVec 32}

theorem genRespPack_old (h : HEADER_VERSION < HEADER_PROTOCAL_VERSION) :
    genRespPack HEADER_VERSION heap ts (funcid.setWidth 32) retCode requestId data dataLen =
      .error (-1) := by
  have hf : ¬ 65535 < (funcid.setWidth 32).toNat := by
    rw [BitVec.toNat_setWidth]
    omega
  rw [genRespPack, if_neg hf, if_pos h]

theorem genRespPack_spec (h : HEADER_PROTOCAL_VERSION ≤ HEADER_VERSION) :
    ∃ rest outLen, genRespPack HEADER_VERSION heap ts (funcid.setWidth 32) retCode requestId data
      dataLen = ⟨requestId.toInt, some ((respHeader HEADER_VERSION ts (funcid.setWidth 32) retCode
        requestId dataLen).encode ++ rest), outLen⟩ := by
  have hf : ¬ 65535 < (funcid.setWidth 32).toNat := by
    rw [BitVec.toNat_setWidth]
    omega
  rw [genRespPack, if_neg hf, if_neg (BitVec.not_lt.mpr h)]
  split
  · rw [AMCRespHeaderV2.encode, List.append_assoc]
    exact ⟨_, _, rfl⟩
  · exact ⟨_, _, rfl⟩

end GenRespPack

namespace ServerEnv
variable (env : ServerEnv) (uid : JInt)

/-- A request assembled from the chunks of a connection gets its one response just
when its id is not negative as an `int64_t`. -/
theorem oneResponse_iff_nonneg {T : Type} (fd : T) {fuel : Nat} {ds : List (Delivery UInt8)}
    {s : Option (RecvCache UInt8) × List (ReqFrame UInt8)}
    (h : recvEvents id fuel none ds = some s) {f : ReqFrame UInt8} (hf : f ∈ s.2) :
    env.OneResponse uid fd f ↔
      0 ≤ f.pHead.requestid.toInt ∧ HEADER_PROTOCAL_VERSION ≤ env.HEADER_VERSION := by
  obtain ⟨respResult, hresp⟩ : Responds env f.pHead (env.processFrame uid f) :=
    responds_processReceive uid (recvEvents_nullEmpty h f hf)
  by_cases hv : HEADER_PROTOCAL_VERSION ≤ env.HEADER_VERSION
  · obtain ⟨rest, outLen, hgen⟩ := @genRespPack_spec env.HEADER_VERSION env.heap env.ts
      f.pHead.funcid respResult f.pHead.requestid none 0 hv
    rw [hgen] at hresp
    have hret : (env.processFrame uid f).ret = f.pHead.requestid.toInt := by
      rw [Processed.ret, hresp]
      rfl
    constructor
    · rintro ⟨⟨w, hw, -⟩, -⟩
      refine ⟨?_, hv⟩
      by_contra hneg
      rw [Processed.pushed, if_pos (by omega)] at hw
      cases hw
    · rintro ⟨hnonneg, -⟩
      have hworker : ((env.processFrame uid f).worker fd).resp =
          some ((respHeader env.HEADER_VERSION env.ts (f.pHead.funcid.setWidth 32) respResult
            f.pHead.requestid 0).encode ++ rest) := by
        rw [Processed.worker, hresp]
        rfl
      refine ⟨⟨(env.processFrame uid f).worker fd, ?_, rfl, _, hworker, ?_, ?_⟩, ?_⟩
      · rw [Processed.pushed, if_neg (by omega)]
      · rw [AMCRespHeader.decode_encode_append]
        exact BitVec.eq_of_toNat_eq (by simp [respHeader])
      · rw [AMCRespHeader.decode_encode_append]
        rfl
      · cases (env.processFrame uid f).call <;> simp
  · rw [genRespPack_old (BitVec.not_le.mp hv)] at hresp
    have hret : (env.processFrame uid f).ret = -1 := by
      rw [Processed.ret, hresp]
      rfl
    constructor
    · rintro ⟨⟨w, hw, -⟩, -⟩
      rw [Processed.pushed, if_pos (by omega)] at hw
      cases hw
    · exact fun h => absurd h.2 hv

/-- A `cancelCpuHighFreq` with the given request id. -/
def cancelRequest (requestid : BitVec 64) : AMCReqHeader :=
  ⟨HEADER_BEGIN, HEADER_PROTOCAL_VERSION, FUNC_CANCEL_CPU_HIGH_FREQ.setWidth 16, 0, requestid, 7, 9⟩

def cancelFrame (requestid : BitVec 64) : ReqFrame UInt8 :=
  ⟨cancelRequest requestid, (cancelRequest requestid).encode, none, 0⟩

theorem oneResponse_iff_nonneg_one :
    recvEvents id 2 none [⟨(cancelRequest 1).encode, fun _ => 0⟩] =
      some (none, [cancelFrame 1]) ∧
    (exampleServer.OneResponse 10000 5 (cancelFrame 1) ↔
      0 ≤ (cancelFrame 1).pHead.requestid.toInt ∧
        HEADER_PROTOCAL_VERSION ≤ exampleServer.HEADER_VERSION) := by
  have hrun : recvEvents id 2 none [⟨(cancelRequest 1).encode, fun _ => 0⟩] =
      some (none, [cancelFrame 1]) := by decide
  exact ⟨hrun, exampleServer.oneResponse_iff_nonneg 10000 5 hrun (List.mem_singleton.mpr rfl)⟩

/-- The handler runs, its response is built and then thrown away. -/
theorem oneResponse_negative :
    recvEvents id 2 none [⟨(cancelRequest (-1)).encode, fun _ => 0⟩] =
      some (none, [cancelFrame (-1)]) ∧
    (exampleServer.processFrame 10000 (cancelFrame (-1))).call = some (.cancelCpuHighFreq 7 9) ∧
    (exampleServer.processFrame 10000 (cancelFrame (-1))).resp.isSome ∧
    (exampleServer.processFrame 10000 (cancelFrame (-1))).pushed 5 = [] ∧
    ¬ exampleServer.OneResponse 10000 5 (cancelFrame (-1)) := by
  have hnone : (exampleServer.processFrame 10000 (cancelFrame (-1))).pushed 5 = [] := by decide
  refine ⟨by decide, by decide, by decide, hnone, fun h => ?_⟩
  obtain ⟨w, hw, -⟩ := h.pushed
  rw [hnone] at hw
  cases hw

end ServerEnv

end Hardcoder
