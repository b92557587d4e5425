import Hardcoder.Protocol
import Hardcoder.Lib.Stream

/-! The request builders of `ClientProtocal` (protocol.h), protobuf branch, and
`sendReq` of the two engines (client.h). -/

namespace Hardcoder
open Stream
set_option autoImplicit false

structure IClientEngine where
  isRunning : Bool
deriving DecidableEq, Repr

/-- What the builders take from their surroundings. -/
structure ClientEnv where
  HEADER_VERSION : BitVec 16
  heap : Uninit
  now : TimeVal
  pb : Protobuf
  /-- `engine()` -/
  engine : Option IClientEngine
  getuid : JInt
  getpid : JInt

/-- The request id returned and the packet handed to the socket, if any. -/
structure SendResult where
  ret : Int
  packet : Option (List UInt8)
deriving DecidableEq, Repr

/-- An `int *` with what lies behind it, `none` for null, read for `len` elements. -/
def ints (p : Option (Delivery JInt)) (len : JInt) : List JInt :=
  (p.map fun d => d.read 0 len.toInt.toNat).getD []

namespace ClientEnv
variable (env : ClientEnv)

def sendReq (pEngine : IClientEngine) (funcid : BitVec 32) (data : Option (List UInt8))
    (dataLen tid : JInt) (timestamp : JLong) : SendResult :=
  if pEngine.isRunning = false then ⟨-1, none⟩
  else
    let pack := genReqPack env.HEADER_VERSION env.heap env.now funcid data dataLen tid timestamp
    if pack.ret ≤ 0 then ⟨pack.ret, none⟩ else ⟨pack.ret, pack.outPack⟩

def withEngine (k : IClientEngine → SendResult) : SendResult := (env.engine.map k).getD ⟨-3, none⟩

/-- A request without arguments has no body. -/
def sendEmpty (funcid : BitVec 32) (tid : JInt) (timestamp : JLong) : SendResult :=
  env.withEngine fun pEngine => env.sendReq pEngine funcid none 0 tid timestamp

/-- `uint8_t body[request.ByteSize()]` lies on the stack; a message whose size an `int`
cannot measure is never sent. -/
def sendMessage {M : Type} (codec : Codec M) (request : M) (funcid : BitVec 32) (tid : JInt)
    (timestamp : JLong) : SendResult :=
  let body := codec.SerializeToArray request
  env.withEngine fun pEngine =>
    if 2 ^ 31 ≤ body.length then ⟨0, none⟩
    else env.sendReq pEngine funcid (some body) (BitVec.ofNat 32 body.length) tid timestamp

def checkPermission (manufactures certs : List StdString) (tid : JInt) (timestamp : JLong) : SendResult :=
  let certTags :=
    if manufactures ≠ [] ∧ manufactures.length = certs.length then
      List.zipWith amc.CertTag.mk manufactures certs
    else []
  env.sendMessage env.pb.CheckPermission ⟨certTags⟩ FUNC_CHECK_PERMISSION tid timestamp

def requestCpuHighFreq (scene : JInt) (action : JLong) (level timeoutms tid : JInt)
    (timestamp : JLong) : SendResult :=
  env.sendMessage env.pb.RequestCPUHighFreq
    { scene := scene, level := level, timeoutMs := timeoutms, action := action }
    FUNC_CPU_HIGH_FREQ tid timestamp

def cancelCpuHighFreq (tid : JInt) (timestamp : JLong) : SendResult :=
  env.sendEmpty FUNC_CANCEL_CPU_HIGH_FREQ tid timestamp

def requestGpuHighFreq (scene : JInt) (action : JLong) (level timeoutms tid : JInt)
    (timestamp : JLong) : SendResult :=
  env.sendMessage env.pb.RequestGPUHighFreq
    { scene := scene, level := level, timeoutMs := timeoutms, action := action }
    FUNC_GPU_HIGH_FREQ tid timestamp

def cancelGpuHighFreq (tid : JInt) (timestamp : JLong) : SendResult :=
  env.sendEmpty FUNC_CANCEL_GPU_HIGH_FREQ tid timestamp

def requestCpuCoreForThread (scene : JInt) (action : JLong) (bindtids : Option (Delivery JInt))
    (bindlen timeoutms tid : JInt) (timestamp : JLong) : SendResult :=
  env.sendMessage env.pb.RequestCPUCoreForThread
    { scene := scene, bindtids := ints bindtids bindlen, timeoutMs := timeoutms, action := action }
    FUNC_CPU_CORE_FOR_THREAD tid timestamp

def cancelCpuCoreForThread (unbindtids : Option (Delivery JInt)) (unbindlen tid : JInt)
    (timestamp : JLong) : SendResult :=
  if unbindlen.toInt ≤ 0 ∨ unbindtids.isNone then env.withEngine fun _ => ⟨-2, none⟩
  else
    env.sendMessage env.pb.CancelCPUCoreForThread { bindtids := ints unbindtids unbindlen }
      FUNC_CANCEL_CPU_CORE_FOR_THREAD tid timestamp

def requestHighIOFreq (scene : JInt) (action : JLong) (level timeoutms tid : JInt)
    (timestamp : JLong) : SendResult :=
  env.sendMessage env.pb.RequestHighIOFreq
    { scene := scene, level := level, timeoutMs := timeoutms, action := action }
    FUNC_HIGH_IO_FREQ tid timestamp

def cancelHighIOFreq (tid : JInt) (timestamp : JLong) : SendResult :=
  env.sendEmpty FUNC_CANCEL_HIGH_IO_FREQ tid timestamp

def requestScreenResolution (level : JInt) (uiName : StdString) (tid : JInt) (timestamp : JLong) :
    SendResult :=
  env.sendMessage env.pb.RequestScreenResolution { level := level, uiName := uiName }
    FUNC_SET_SCREEN_RESOLUTION tid timestamp

def resetScreenResolution (tid : JInt) (timestamp : JLong) : SendResult :=
  env.sendEmpty FUNC_RESET_SCREEN_RESOLUTION tid timestamp

def registerANRCallback (tid : JInt) (timestamp : JLong) : SendResult :=
  env.sendMessage env.pb.RegisterCallback
    { type := REGISTER_CALLBACK_TYPE_ANR, uid := env.getuid, pid := env.getpid }
    FUNC_REG_ANR_CALLBACK tid timestamp

def registerSystemEventCallback (tid : JInt) (timestamp : JLong) : SendResult :=
  env.sendMessage env.pb.RegisterCallback
    { type := REGISTER_CALLBACK_TYPE_SYSTEM_EVENT, uid := env.getuid, pid := env.getpid }
    FUNC_REG_SYSTEM_EVENT_CALLBACK tid timestamp

def registerBootPreloadResource (files : List StdString) (tid : JInt) (timestamp : JLong) : SendResult :=
  env.sendMessage env.pb.RequestBootPreLoadResource { filelist := files }
    FUNC_REG_PRELOAD_BOOT_RESOURCE tid timestamp

def terminateApp (tid : JInt) (timestamp : JLong) : SendResult :=
  env.sendEmpty FUNC_TERMINATE_APP tid timestamp

def requestUnifyCpuIOThreadCoreGpu (scene : JInt) (action : JLong) (cpulevel iolevel : JInt)
    (bindtids : Option (Delivery JInt)) (gpulevel bindlen timeoutms tid : JInt)
    (timestamp : JLong) : SendResult :=
  env.sendMessage env.pb.RequestUnifyCPUIOThreadCore
    { scene := scene, action := action, cpulevel := cpulevel, iolevel := iolevel
      gpulevel := some gpulevel, bindtids := ints bindtids bindlen, timeoutMs := timeoutms }
    FUNC_UNIFY_CPU_IO_THREAD_CORE_GPU tid timestamp

def cancelUnifyCpuIOThreadCoreGpu (cancelcpu cancelio cancelthread : JInt)
    (unbindtids : Option (Delivery JInt)) (unbindlen cancelgpu tid : JInt) (timestamp : JLong) :
    SendResult :=
  env.sendMessage env.pb.CancelUnifyCPUIOThreadCore
    { cancelcpu := cancelcpu, cancelio := cancelio, cancelthread := cancelthread
      cancelgpu := some cancelgpu, bindtids := ints unbindtids unbindlen }
    FUNC_CANCEL_UNIFY_CPU_IO_THREAD_CORE_GPU tid timestamp

def configure (data : StdString) (tid : JInt) (timestamp : JLong) : SendResult :=
  env.sendMessage env.pb.Configuration { data := data } FUNC_CONFIGURE tid timestamp

def getParameters (data : StdString) (tid : JInt) (timestamp : JLong) : SendResult :=
  env.sendMessage env.pb.GetParameters { data := data } FUNC_GET_PARAMETERS tid timestamp

end ClientEnv

end Hardcoder
