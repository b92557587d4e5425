import Hardcoder.ServerCallbacks

/-! Who registers whom. The uid that a registration enters is the one named in its body,
not that of the connection's peer. -/

namespace Hardcoder
open Runs
set_option autoImplicit false

/-- The list a handler enters a uid in, and the uid. -/
def HardCoderCall.registration : HardCoderCall → Option (JInt × JInt)
  | .registerAnrCallback uid _ _ => some (REGISTER_CALLBACK_TYPE_ANR, uid)
  | .registerSystemEventCallback uid _ _ => some (REGISTER_CALLBACK_TYPE_SYSTEM_EVENT, uid)
  | _ => none

namespace ManufacturerCoder

theorem mem_pushUid {cbL : List JInt} {uid b : JInt} : b ∈ pushUid cbL uid ↔ b ∈ cbL ∨ b = uid := by
  unfold pushUid
  split
  · rename_i hmem
    constructor
    · exact .inl
    · rintro (hb | rfl)
      · exact hb
      · exact hmem
  · rw [List.mem_append, List.mem_singleton]

theorem mem_callbackList_handle (m : ManufacturerCoder) (call : HardCoderCall) (type uid : JInt) :
    uid ∈ (m.handle call).callbackList type ↔
      uid ∈ m.callbackList type ∨ call.registration = some (type, uid) := by
  have hcases : ∀ t u, some (t, u) = some (type, uid) ↔ t = type ∧ uid = u := by
    intro t u
    rw [Option.some_inj, Prod.mk_inj, @eq_comm _ u]
  cases call with
  | registerAnrCallback =>
    rw [HardCoderCall.registration, hcases]
    unfold callbackList handle
    by_cases hone : type = 1
    · subst hone
      exact ⟨.inl, fun h => h.resolve_right fun h => absurd h.1 (by decide)⟩
    rw [if_neg hone, if_neg hone]
    by_cases htwo : type = 2
    · subst htwo
      rw [if_pos rfl, if_pos rfl, mem_pushUid]
      exact or_congr_right ⟨fun h => ⟨rfl, h⟩, fun h => h.2⟩
    · rw [if_neg htwo, if_neg htwo]
      exact ⟨.inl, fun h => h.resolve_right fun h => htwo h.1.symm⟩
  | registerSystemEventCallback =>
    rw [HardCoderCall.registration, hcases]
    unfold callbackList handle
    by_cases hone : type = 1
    · subst hone
      rw [if_pos rfl, if_pos rfl, mem_pushUid]
      exact or_congr_right ⟨fun h => ⟨rfl, h⟩, fun h => h.2⟩
    · rw [if_neg hone, if_neg hone]
      exact ⟨.inl, fun h => h.resolve_right fun h => hone h.1.symm⟩
  | _ => exact ⟨.inl, fun h => h.resolve_right fun h => nomatch (h : none = some (type, uid))⟩

end ManufacturerCoder

namespace ServerEnv
variable (env : ServerEnv)

/-- The registration that a request asks for. A body that does not parse leaves the uid
that `ParseFromArray` got to, 0 at first. -/
def registration (f : ReqFrame UInt8) : Option (JInt × JInt) :=
  let p := env.pb.RegisterCallback.ParseFromArray (copied f.payload f.payloadLen)
  if f.payload = none ∧ f.payloadLen ≠ 0 ∨ f.pHead.version < HEADER_PROTOCAL_VERSION then none
  else if f.pHead.funcid.setWidth 32 = FUNC_REG_SYSTEM_EVENT_CALLBACK then
    some (REGISTER_CALLBACK_TYPE_SYSTEM_EVENT, p.2.uid)
  else if f.pHead.funcid.setWidth 32 = FUNC_REG_ANR_CALLBACK then
    some (REGISTER_CALLBACK_TYPE_ANR, p.2.uid)
  else none

section Dispatch
variable {env} {pHead : AMCReqHeader}

/-- No uid is entered. -/
def EntersNone (p : Processed) : Prop := p.call.bind (·.registration) = none

theorem entersNone_respond (respResult : JInt) : EntersNone (respond env pHead none respResult) :=
  rfl

theorem entersNone_handle {c : HardCoderCall} (h : c.registration = none) :
    EntersNone (handle env pHead c) := h

theorem entersNone_handleParsed {M : Type} {parsed : Bool × M} {c : M → HardCoderCall}
    (h : ∀ m, (c m).registration = none) : EntersNone (handleParsed env pHead parsed c) := by
  unfold handleParsed
  split
  · exact entersNone_handle (h _)
  · exact entersNone_respond _

theorem entersNone_ite {c : Prop} [Decidable c] {p q : Processed} (hp : c → EntersNone p)
    (hq : ¬ c → EntersNone q) : EntersNone (if c then p else q) := by
  split
  · exact hp ‹_›
  · exact hq ‹_›

theorem entersNone_dispatch (uid : JInt) (body : List UInt8)
    (hevent : pHead.funcid.setWidth 32 ≠ FUNC_REG_SYSTEM_EVENT_CALLBACK)
    (hanr : pHead.funcid.setWidth 32 ≠ FUNC_REG_ANR_CALLBACK) :
    EntersNone (dispatch env pHead uid body) := by
  unfold dispatch
  dsimp only
  repeat
    first
    | exact entersNone_respond _
    | exact entersNone_handle rfl
    | exact entersNone_handleParsed fun _ => rfl
    | exact absurd ‹_› hevent
    | exact absurd ‹_› hanr
    | refine entersNone_ite (fun _ => ?_) (fun _ => ?_)
    | rfl

theorem registration_processFrame (uid : JInt) (f : ReqFrame UInt8) :
    (env.processFrame uid f).call.bind (·.registration) = env.registration f := by
  unfold processFrame processReceive registration
  dsimp only
  by_cases hnull : f.payload = none ∧ f.payloadLen ≠ 0
  · rw [if_pos hnull, if_pos (.inl hnull)]
    rfl
  by_cases hold : f.pHead.version < HEADER_PROTOCAL_VERSION
  · rw [if_neg hnull, if_pos hold, if_pos (.inr hold)]
    rfl
  rw [if_neg hnull, if_neg hold, if_neg (not_or.mpr ⟨hnull, hold⟩)]
  by_cases hevent : f.pHead.funcid.setWidth 32 = FUNC_REG_SYSTEM_EVENT_CALLBACK
  · rw [if_pos hevent, dispatch]
    simp +decide only [hevent, ↓reduceIte]
    rfl
  by_cases hanr : f.pHead.funcid.setWidth 32 = FUNC_REG_ANR_CALLBACK
  · rw [if_neg hevent, if_pos hanr, dispatch]
    simp +decide only [hanr, ↓reduceIte]
    rfl
  · rw [if_neg hevent, if_neg hanr]
    exact entersNone_dispatch uid _ hevent hanr

end Dispatch
end ServerEnv

namespace CallbackServer
open LocalSocketServer

section Identity
variable (codec : Codec amc.DataCallback)

/-- A uid that the step enters in a list is that of the peer whose request it is. -/
def Credited (s : Sys) (a : Action) : Prop :=
  ∀ s', step codec s a = some s' → ∀ type uid, uid ∈ s'.coder.callbackList type →
    uid ∉ s.coder.callbackList type →
    ∃ env fd f peer, a = .request env fd f ∧ s.conns fd = some peer ∧
      env.registration f = some (type, uid) ∧ peer.uid = uid

/-- A registration names the uid of its connection's peer, or one that has registered. -/
def NamesPeer (s : Sys) (a : Action) : Prop :=
  ∀ env fd f peer, a = .request env fd f → s.conns fd = some peer →
    ∀ type uid, env.registration f = some (type, uid) →
      uid = peer.uid ∨ uid ∈ s.coder.callbackList type

variable {codec} {s s' : Sys} {a : Action}

theorem step_request {env : ServerEnv} {fd : Fd} {f : ReqFrame UInt8}
    (hstep : step codec s (.request env fd f) = some s') (type uid : JInt) :
    uid ∈ s'.coder.callbackList type ↔
      uid ∈ s.coder.callbackList type ∨ env.registration f = some (type, uid) := by
  obtain ⟨peer, hpeer, rfl⟩ := Option.map_eq_some_iff.mp hstep
  rw [← env.registration_processFrame ((s.mapUid.get? fd).getD 0) f]
  dsimp only
  cases (env.processFrame ((s.mapUid.get? fd).getD 0) f).call with
  | none => exact ⟨.inl, fun h => h.resolve_right fun h => by cases h⟩
  | some call => exact s.coder.mem_callbackList_handle call type uid

theorem step_callbackList (hstep : step codec s a = some s')
    (ha : ∀ env fd f, a ≠ .request env fd f) (type : JInt) :
    s'.coder.callbackList type = s.coder.callbackList type := by
  cases a with
  | accept fd uid =>
    obtain rfl := step_accept_eq hstep
    rfl
  | close fd =>
    obtain rfl := step_close_eq hstep
    rfl
  | request env fd f => exact absurd rfl (ha env fd f)
  | onEvent eventCode =>
    obtain rfl := Option.some.inj hstep
    rfl
  | onANR log =>
    obtain rfl := Option.some.inj hstep
    rfl
  | dispatch env =>
    obtain ⟨cbQueue, respQueue, rfl⟩ := step_dispatch_eq hstep
    rfl
  | popResp =>
    obtain ⟨respQueue, rfl⟩ := step_popResp_eq hstep
    rfl

theorem credited_iff_namesPeer : Credited codec s a ↔ NamesPeer s a := by
  constructor
  · rintro h env fd f peer rfl hpeer type uid hreg
    by_contra hnot
    rw [not_or] at hnot
    obtain ⟨s', hs'⟩ : ∃ s', step codec s (.request env fd f) = some s' :=
      ⟨_, Option.map_eq_some_iff.mpr ⟨peer, hpeer, rfl⟩⟩
    have hmem := (step_request hs' type uid).mpr (.inr hreg)
    obtain ⟨env', fd', f', peer', heq, hpeer', -, huid⟩ := h s' hs' type uid hmem hnot.2
    injection heq with _ hfd _
    rw [← hfd] at hpeer'
    obtain rfl := Option.some.inj (hpeer.symm.trans hpeer')
    exact hnot.1 huid.symm
  · intro h s' hstep type uid hmem hnot
    by_cases ha : ∃ env fd f, a = .request env fd f
    · obtain ⟨env, fd, f, rfl⟩ := ha
      obtain ⟨peer, hpeer, -⟩ := Option.map_eq_some_iff.mp hstep
      have hreg := ((step_request hstep type uid).mp hmem).resolve_left hnot
      exact ⟨env, fd, f, peer, rfl, hpeer, hreg,
        ((h env fd f peer rfl hpeer type uid hreg).resolve_right hnot).symm⟩
    · rw [step_callbackList hstep fun env fd f heq => ha ⟨env, fd, f, heq⟩] at hmem
      exact absurd hmem hnot

/-- In a run uids are entered by their own clients only, just when every registration names
its peer or a uid that has registered already. -/
theorem callerIdentity_iff_namesPeer (codec : Codec amc.DataCallback) (as : List Action) :
    Along (step codec) (Credited codec) init as ↔ Along (step codec) NamesPeer init as :=
  @along_congr _ _ _ _ _ (fun _ => True) (fun _ _ _ => trivial) (fun _ => credited_iff_namesPeer) _ _
    trivial

end Identity

/-- `registerAnrCallback` with a body that does not parse. -/
def emptyRegisterFrame : ReqFrame UInt8 :=
  let pHead : AMCReqHeader := ⟨HEADER_BEGIN, HEADER_PROTOCAL_VERSION,
    FUNC_REG_ANR_CALLBACK.setWidth 16, 0, 1, 7, 9⟩
  ⟨pHead, pHead.encode, none, 0⟩

/-- A client of this uid is accepted on descriptor 6 and sends a registration. -/
def acceptAndSend (f : ReqFrame UInt8) : List Action :=
  [.accept 6 10000, .request exampleServer 6 f]

theorem namesPeer_of_credited {f : ReqFrame UInt8} {type uid : JInt}
    (hreg : exampleServer.registration f = some (type, uid))
    (h : Along (step AmcWire.dataCallback.codec) (Credited AmcWire.dataCallback.codec) init
      (acceptAndSend f)) :
    uid = 10000 ∨ uid ∈ init.coder.callbackList type := by
  have hone : step AmcWire.dataCallback.codec init (.accept 6 10000) = some { init with
      conns := Function.update init.conns 6 (some ⟨0, 10000⟩)
      accepted := 1
      mapUid := init.mapUid.set 6 10000 } := rfl
  exact credited_iff_namesPeer.mp (h.2 _ hone).1 exampleServer 6 f ⟨0, 10000⟩ rfl rfl type uid hreg

/-- A client enters another app's uid, and with a body that does not parse the uid 0. -/
theorem callerIdentity_stranger :
    ¬ Along (step AmcWire.dataCallback.codec) (Credited AmcWire.dataCallback.codec) init
      (acceptAndSend (registerFrame 10001)) ∧
    ¬ Along (step AmcWire.dataCallback.codec) (Credited AmcWire.dataCallback.codec) init
      (acceptAndSend emptyRegisterFrame) := by
  have hother : exampleServer.registration (registerFrame 10001) = some (2, 10001) := by
    decide +kernel
  have hempty : exampleServer.registration emptyRegisterFrame = some (2, 0) := by decide +kernel
  constructor
  · exact fun h => absurd (namesPeer_of_credited hother h) (by decide)
  · exact fun h => absurd (namesPeer_of_credited hempty h) (by decide)

end CallbackServer

end Hardcoder
