import Hardcoder.Amc
import Hardcoder.Header

/-! Function ids, the `HardCoder` interface and `ServerDataWorker::processReceive`
(protocol.h). -/

namespace Hardcoder
set_option autoImplicit false

def REGISTER_CALLBACK_TYPE_SYSTEM_EVENT : JInt := 0x1
def REGISTER_CALLBACK_TYPE_ANR : JInt := 0x2

def ERR_UNAUTHORIZED : JInt := -10001
def ERR_FUNCTION_NOT_SUPPORT : JInt := -10002
def ERR_PACKAGE_DECODE_FAILED : JInt := -10005
def ERR_CLIENT_UPGRADE_REQUIRED : JInt := -10007

def FUNC_BASE : BitVec 32 := 1000
def FUNC_CHECK_PERMISSION := FUNC_BASE + 1
def FUNC_CPU_HIGH_FREQ := FUNC_BASE + 2
def FUNC_CANCEL_CPU_HIGH_FREQ := FUNC_BASE + 3
def FUNC_CPU_CORE_FOR_THREAD := FUNC_BASE + 4
def FUNC_CANCEL_CPU_CORE_FOR_THREAD := FUNC_BASE + 5
def FUNC_HIGH_IO_FREQ := FUNC_BASE + 6
def FUNC_CANCEL_HIGH_IO_FREQ := FUNC_BASE + 7
def FUNC_SET_SCREEN_RESOLUTION := FUNC_BASE + 8
def FUNC_RESET_SCREEN_RESOLUTION := FUNC_BASE + 9
def FUNC_REG_ANR_CALLBACK := FUNC_BASE + 10
def FUNC_REG_PRELOAD_BOOT_RESOURCE := FUNC_BASE + 11
def FUNC_TERMINATE_APP := FUNC_BASE + 12
def FUNC_UNIFY_CPU_IO_THREAD_CORE_GPU := FUNC_BASE + 13
def FUNC_CANCEL_UNIFY_CPU_IO_THREAD_CORE_GPU := FUNC_BASE + 14
def FUNC_REG_SYSTEM_EVENT_CALLBACK := FUNC_BASE + 15
def FUNC_GPU_HIGH_FREQ := FUNC_BASE + 16
def FUNC_CANCEL_GPU_HIGH_FREQ := FUNC_BASE + 17
def FUNC_CONFIGURE := FUNC_BASE + 18
def FUNC_GET_PARAMETERS := FUNC_BASE + 19

/-- A call of a `HardCoder` handler, parameters in the order of the interface. -/
inductive HardCoderCall where
  | checkPermission (manufactures certs : List StdString) (funcid uid callertid : JInt)
      (timestamp : JLong)
  | requestCpuHighFreq (scene : JInt) (action : JLong) (level timeoutms callertid : JInt)
      (timestamp : JLong)
  | cancelCpuHighFreq (callertid : JInt) (timestamp : JLong)
  | requestGpuHighFreq (scene : JInt) (action : JLong) (level timeoutms callertid : JInt)
      (timestamp : JLong)
  | cancelGpuHighFreq (callertid : JInt) (timestamp : JLong)
  | requestCpuCoreForThread (scene : JInt) (action : JLong) (bindtids : List JInt)
      (timeoutms callertid : JInt) (timestamp : JLong)
  | cancelCpuCoreForThread (bindtids : List JInt) (callertid : JInt) (timestamp : JLong)
  | requestHighIOFreq (scene : JInt) (action : JLong) (level timeoutms callertid : JInt)
      (timestamp : JLong)
  | cancelHighIOFreq (callertid : JInt) (timestamp : JLong)
  | requestScreenResolution (level : JInt) (uiName : StdString) (callertid : JInt)
      (timestamp : JLong)
  | resetScreenResolution (callertid : JInt) (timestamp : JLong)
  | registerAnrCallback (uid callertid : JInt) (timestamp : JLong)
  | registerSystemEventCallback (uid callertid : JInt) (timestamp : JLong)
  | registerBootPreloadResource (file : List StdString) (callertid : JInt) (timestamp : JLong)
  | terminateApp (callertid : JInt) (timestamp : JLong)
  | requestUnifyCpuIOThreadCoreGpu (scene : JInt) (action : JLong) (cpulevel iolevel : JInt)
      (bindtids : List JInt) (gpulevel timeoutms callertid : JInt) (timestamp : JLong)
  | cancelUnifyCpuIOThreadCoreGpu (cancelcpu cancelio cancelthread : JInt) (bindtids : List JInt)
      (cancelgpu callertid : JInt) (timestamp : JLong)
  | configure (data : StdString) (callertid : JInt) (timestamp : JLong)
  | getParameters (data : StdString) (callertid : JInt) (timestamp : JLong)
deriving DecidableEq, Repr

/-- The server's surroundings: its build's header version, what a response header
takes from the heap and the clock, and the handlers (a `bool` result is 0 or 1). -/
structure ServerEnv where
  HEADER_VERSION : BitVec 16
  heap : Uninit
  ts : TimeSpec
  pb : Protobuf
  inst : HardCoderCall → JInt

/-- The handler `processReceive` called, if any, and the response it built. -/
structure Processed where
  call : Option HardCoderCall
  resp : Option GenPack
deriving DecidableEq, Repr

namespace ServerEnv
variable (env : ServerEnv) (pHead : AMCReqHeader)

def respond (call : Option HardCoderCall) (respResult : JInt) : Processed :=
  ⟨call, some (genRespPack env.HEADER_VERSION env.heap env.ts (pHead.funcid.setWidth 32) respResult
    pHead.requestid none 0)⟩

def handle (c : HardCoderCall) : Processed := respond env pHead (some c) (env.inst c)

/-- `ret ? inst->..(p..) : ERR_PACKAGE_DECODE_FAILED` -/
def handleParsed {M : Type} (parsed : Bool × M) (c : M → HardCoderCall) : Processed :=
  if parsed.1 then handle env pHead (c parsed.2)
  else respond env pHead none ERR_PACKAGE_DECODE_FAILED

theorem handleParsed_call {M : Type} {parsed : Bool × M} {m : M} (h : parsed = (true, m))
    (c : M → HardCoderCall) : (handleParsed env pHead parsed c).call = some (c m) := by
  rw [h]
  rfl

/-- `processReceive` past its checks: one handler for each function id. -/
def dispatch (uid : JInt) (body : List UInt8) : Processed :=
  let funcid := pHead.funcid.setWidth 32
  let tid := pHead.callertid
  let time := pHead.timestamp
  if funcid = FUNC_CHECK_PERMISSION then
    -- a body that does not parse is an empty list of certificates
    let p := env.pb.CheckPermission.ParseFromArray body
    let certTags := if p.1 then p.2.certTags else []
    let call := .checkPermission (certTags.map (·.manufacture)) (certTags.map (·.cert)) funcid uid
      tid time
    respond env pHead (some call) (if env.inst call ≠ 0 then 0 else ERR_UNAUTHORIZED)
  else if funcid = FUNC_UNIFY_CPU_IO_THREAD_CORE_GPU then
    handleParsed env pHead (env.pb.RequestUnifyCPUIOThreadCore.ParseFromArray body) fun p =>
      .requestUnifyCpuIOThreadCoreGpu p.scene p.action p.cpulevel p.iolevel p.bindtids
        (p.gpulevel.getD 0) p.timeoutMs tid time
  else if funcid = FUNC_CANCEL_UNIFY_CPU_IO_THREAD_CORE_GPU then
    handleParsed env pHead (env.pb.CancelUnifyCPUIOThreadCore.ParseFromArray body) fun p =>
      .cancelUnifyCpuIOThreadCoreGpu p.cancelcpu p.cancelio p.cancelthread p.bindtids
        (p.cancelgpu.getD 0) tid time
  else if funcid = FUNC_CPU_HIGH_FREQ then
    handleParsed env pHead (env.pb.RequestCPUHighFreq.ParseFromArray body) fun p =>
      .requestCpuHighFreq p.scene p.action p.level p.timeoutMs tid time
  else if funcid = FUNC_CANCEL_CPU_HIGH_FREQ then
    handle env pHead (.cancelCpuHighFreq tid time)
  else if funcid = FUNC_GPU_HIGH_FREQ then
    handleParsed env pHead (env.pb.RequestGPUHighFreq.ParseFromArray body) fun p =>
      .requestGpuHighFreq p.scene p.action p.level p.timeoutMs tid time
  else if funcid = FUNC_CANCEL_GPU_HIGH_FREQ then
    handle env pHead (.cancelGpuHighFreq tid time)
  else if funcid = FUNC_CPU_CORE_FOR_THREAD then
    handleParsed env pHead (env.pb.RequestCPUCoreForThread.ParseFromArray body) fun p =>
      .requestCpuCoreForThread p.scene p.action p.bindtids p.timeoutMs tid time
  else if funcid = FUNC_CANCEL_CPU_CORE_FOR_THREAD then
    handleParsed env pHead (env.pb.CancelCPUCoreForThread.ParseFromArray body) fun p =>
      .cancelCpuCoreForThread p.bindtids tid time
  else if funcid = FUNC_HIGH_IO_FREQ then
    handleParsed env pHead (env.pb.RequestHighIOFreq.ParseFromArray body) fun p =>
      .requestHighIOFreq p.scene p.action p.level p.timeoutMs tid time
  else if funcid = FUNC_CANCEL_HIGH_IO_FREQ then
    handle env pHead (.cancelHighIOFreq tid time)
  else if funcid = FUNC_SET_SCREEN_RESOLUTION then
    handleParsed env pHead (env.pb.RequestScreenResolution.ParseFromArray body) fun p =>
      .requestScreenResolution p.level p.uiName tid time
  else if funcid = FUNC_RESET_SCREEN_RESOLUTION then
    handle env pHead (.resetScreenResolution tid time)
  else if funcid = FUNC_REG_SYSTEM_EVENT_CALLBACK then
    -- a registration is passed on whether or not it parsed, and so is `configure` below
    let p := env.pb.RegisterCallback.ParseFromArray body
    handle env pHead (.registerSystemEventCallback p.2.uid tid time)
  else if funcid = FUNC_REG_ANR_CALLBACK then
    let p := env.pb.RegisterCallback.ParseFromArray body
    handle env pHead (.registerAnrCallback p.2.uid tid time)
  else if funcid = FUNC_REG_PRELOAD_BOOT_RESOURCE then
    handleParsed env pHead (env.pb.RequestBootPreLoadResource.ParseFromArray body) fun p =>
      .registerBootPreloadResource p.filelist tid time
  else if funcid = FUNC_TERMINATE_APP then
    handle env pHead (.terminateApp tid time)
  else if funcid = FUNC_CONFIGURE then
    let p := env.pb.Configuration.ParseFromArray body
    handle env pHead (.configure p.2.data tid time)
  else if funcid = FUNC_GET_PARAMETERS then
    let p := env.pb.GetParameters.ParseFromArray body
    handle env pHead (.getParameters p.2.data tid time)
  else respond env pHead none ERR_FUNCTION_NOT_SUPPORT

/-- `payload` is `none` for a null pointer. -/
def processReceive (uid : JInt) (payload : Option (List UInt8)) (payloadLen : BitVec 32) :
    Processed :=
  if payload = none ∧ payloadLen ≠ 0 then ⟨none, none⟩
  else if pHead.version < HEADER_PROTOCAL_VERSION then
    respond env pHead none ERR_CLIENT_UPGRADE_REQUIRED
  else dispatch env pHead uid (copied payload payloadLen)

end ServerEnv

end Hardcoder
