import Hardcoder.ClientProtocal
import Hardcoder.CJson

/-! The bodies that the requests of `ClientProtocal` (protocol.h) build: the JSON
document from `HEADER_JSON_VERSION` on, the message of amc.proto before it. -/

namespace Hardcoder
open Stream cJSON
set_option autoImplicit false

def CPU_LEVEL_0 : JInt := 0
def GPU_LEVEL_0 : JInt := 0
def IO_LEVEL_0 : JInt := 0
def JSON_VERSION : BitVec 32 := 1
def STATUS_NONE : BitVec 32 := 0
def STATUS_REQUEST : BitVec 32 := 1
def STATUS_RESET : BitVec 32 := 2

/-- A call of a request function of `ClientProtocal`, without thread id and timestamp. -/
inductive ClientCall where
  | checkPermission (manufactures certs : List StdString)
  | requestCpuHighFreq (scene : JInt) (action : JLong) (level timeoutms : JInt)
  | cancelCpuHighFreq
  | requestGpuHighFreq (scene : JInt) (action : JLong) (level timeoutms : JInt)
  | cancelGpuHighFreq
  | requestCpuCoreForThread (scene : JInt) (action : JLong) (bindtids : Option (Delivery JInt))
      (bindlen timeoutms : JInt)
  | cancelCpuCoreForThread (unbindtids : Option (Delivery JInt)) (unbindlen : JInt)
  | requestHighIOFreq (scene : JInt) (action : JLong) (level timeoutms : JInt)
  | cancelHighIOFreq
  | requestScreenResolution (level : JInt) (uiName : StdString)
  | resetScreenResolution
  | registerANRCallback
  | registerSystemEventCallback
  | registerBootPreloadResource (files : List StdString)
  | terminateApp
  | requestUnifyCpuIOThreadCoreGpu (scene : JInt) (action : JLong) (cpulevel iolevel : JInt)
      (bindtids : Option (Delivery JInt)) (gpulevel bindlen timeoutms : JInt)
  | cancelUnifyCpuIOThreadCoreGpu (cancelcpu cancelio cancelthread : JInt)
      (unbindtids : Option (Delivery JInt)) (unbindlen cancelgpu : JInt)
  /-- `data` may be null -/
  | configure (data : Option StdString)
  | getParameters (data : Option StdString)

/-- What a request function comes to before it sends. -/
inductive Built (B : Type) where
  | body (b : B)
  /-- it returns this and sends nothing -/
  | refused (ret : Int)
  /-- a null pointer is read -/
  | undefined

/-- `std::string::c_str`, read as a C string -/
def c_str (s : StdString) : StdString := s.takeWhile (· ≠ 0)

/-! ### JSON -/

/-- The bytes of a literal name. -/
def key (name : String) : StdString := name.toList.map fun c => UInt8.ofNat c.toNat

/-- `cJSON_CreateNumber` of an integer -/
def createNumber (z : Int) : Json := .number (.finite (.nearest z))

/-- `cJSON_AddNumberToObject` -/
def number (name : String) (z : Int) : StdString × Json := (key name, createNumber z)

def createString (s : StdString) : Json := .string (c_str s)

/-- The array of thread ids, if there is one. -/
def tids (name : String) (p : Option (Delivery JInt)) (len : JInt) : List (StdString × Json) :=
  if 0 < len.toInt ∧ p.isSome then
    [(key name, .array ((ints p len).map fun tid => createNumber tid.toInt))]
  else []

/-- The members with which every document begins. -/
def header (funcid : BitVec 32) : List (StdString × Json) :=
  [number "jsonVersion" JSON_VERSION.toNat, number "funcid" funcid.toNat]

def statusHeader (funcid status : BitVec 32) : List (StdString × Json) :=
  header funcid ++ [number "status" status.toNat]

def certTag (manufacture cert : StdString) : Json :=
  .object [(key "manufacture", createString manufacture), (key "cert", createString cert)]

theorem certTags_eq_map (manufactures certs : List StdString) : List.zipWith certTag manufactures certs =
    (manufactures.zip certs).map fun pair => certTag pair.1 pair.2 :=
  (List.map_zip_eq_zipWith (f := fun pair => certTag pair.1 pair.2)).symm

/-- The requests for one level. -/
def highFreq (funcid : BitVec 32) (levelName : String) (scene : JInt) (action : JLong)
    (level timeoutms : JInt) : List (StdString × Json) :=
  statusHeader funcid STATUS_REQUEST ++ [number "scene" scene.toInt, number "action" action.toInt,
    number levelName level.toInt, number "timeoutMs" timeoutms.toInt]

def cancelHighFreq (funcid : BitVec 32) (levelName : String) (level : JInt) : List (StdString × Json) :=
  statusHeader funcid STATUS_RESET ++ [number levelName level.toInt]

/-- What `cJSON_Parse` makes of the text, with the version and the function id added at its end. -/
def addHeader (funcid : BitVec 32) : Json → Json
  | .object members => .object (members ++ header funcid)
  | .array items => .array (items ++ (header funcid).map Prod.snd)
  | item => item

section Bodies
variable (env : ClientEnv) (cJSON_Parse : StdString → Option Json)

def registerCallback (funcid : BitVec 32) (type : JInt) : List (StdString × Json) :=
  statusHeader funcid STATUS_NONE ++
    [number "type" type.toNat, number "uid" env.getuid.toNat, number "pid" env.getpid.toInt]

/-- The document of `configure` and `getParameters`; without one `cJSON_Print` gives null. -/
def parsedBody (funcid : BitVec 32) (data : Option StdString) : Built Json :=
  match data.bind fun data => cJSON_Parse (c_str data) with
  | none => .undefined
  | some item => .body (addHeader funcid item)

/-- The item that is printed. -/
def jsonRequest : ClientCall → Built Json
  | .checkPermission manufactures certs =>
    .body <| .object <| header FUNC_CHECK_PERMISSION ++
      if manufactures ≠ [] ∧ manufactures.length = certs.length then
        [(key "certTags", .array (List.zipWith certTag manufactures certs))]
      else []
  | .requestCpuHighFreq scene action level timeoutms =>
    .body (.object (highFreq FUNC_CPU_HIGH_FREQ "cpulevel" scene action level timeoutms))
  | .cancelCpuHighFreq =>
    .body (.object (cancelHighFreq FUNC_CANCEL_CPU_HIGH_FREQ "cpulevel" CPU_LEVEL_0))
  | .requestGpuHighFreq scene action level timeoutms =>
    .body (.object (highFreq FUNC_GPU_HIGH_FREQ "gpulevel" scene action level timeoutms))
  | .cancelGpuHighFreq =>
    .body (.object (cancelHighFreq FUNC_CANCEL_GPU_HIGH_FREQ "gpulevel" GPU_LEVEL_0))
  | .requestCpuCoreForThread scene action bindtids bindlen timeoutms =>
    .body <| .object <| statusHeader FUNC_CPU_CORE_FOR_THREAD STATUS_REQUEST ++
      [number "scene" scene.toInt, number "action" action.toInt] ++
        tids "bindtids" bindtids bindlen ++ [number "timeoutMs" timeoutms.toInt]
  | .cancelCpuCoreForThread unbindtids unbindlen =>
    if unbindlen.toInt ≤ 0 ∨ unbindtids.isNone then .refused (-2)
    else
      .body <| .object <| statusHeader FUNC_CANCEL_CPU_CORE_FOR_THREAD STATUS_RESET ++
        tids "unbindtids" unbindtids unbindlen
  | .requestHighIOFreq scene action level timeoutms =>
    .body (.object (highFreq FUNC_HIGH_IO_FREQ "iolevel" scene action level timeoutms))
  | .cancelHighIOFreq =>
    .body (.object (cancelHighFreq FUNC_CANCEL_HIGH_IO_FREQ "iolevel" IO_LEVEL_0))
  | .requestScreenResolution level uiName =>
    .body <| .object <| statusHeader FUNC_SET_SCREEN_RESOLUTION STATUS_REQUEST ++
      [(key "uiName", createString uiName), number "level" level.toInt]
  | .resetScreenResolution =>
    .body (.object (statusHeader FUNC_RESET_SCREEN_RESOLUTION STATUS_RESET))
  | .registerANRCallback =>
    .body (.object (registerCallback env FUNC_REG_ANR_CALLBACK REGISTER_CALLBACK_TYPE_ANR))
  | .registerSystemEventCallback =>
    .body (.object (registerCallback env FUNC_REG_SYSTEM_EVENT_CALLBACK
      REGISTER_CALLBACK_TYPE_SYSTEM_EVENT))
  | .registerBootPreloadResource files =>
    .body <| .object <| statusHeader FUNC_REG_PRELOAD_BOOT_RESOURCE STATUS_NONE ++
      if files ≠ [] then [(key "filelist", .array (files.map createString))] else []
  | .terminateApp => .body (.object (statusHeader FUNC_TERMINATE_APP STATUS_NONE))
  | .requestUnifyCpuIOThreadCoreGpu scene action cpulevel iolevel bindtids gpulevel bindlen timeoutms =>
    .body <| .object <| statusHeader FUNC_UNIFY_CPU_IO_THREAD_CORE_GPU STATUS_REQUEST ++
      [number "scene" scene.toInt, number "action" action.toInt, number "cpulevel" cpulevel.toInt,
        number "iolevel" iolevel.toInt, number "gpulevel" gpulevel.toInt] ++
        tids "bindtids" bindtids bindlen ++ [number "timeoutMs" timeoutms.toInt]
  | .cancelUnifyCpuIOThreadCoreGpu cancelcpu cancelio cancelthread unbindtids unbindlen cancelgpu =>
    .body <| .object <| statusHeader FUNC_CANCEL_UNIFY_CPU_IO_THREAD_CORE_GPU STATUS_RESET ++
      [number "cpulevel" cancelcpu.toInt, number "iolevel" cancelio.toInt,
        number "gpulevel" cancelgpu.toInt, number "cancelthread" cancelthread.toInt] ++
        tids "unbindtids" unbindtids unbindlen
  | .configure data => parsedBody cJSON_Parse FUNC_CONFIGURE data
  | .getParameters data => parsedBody cJSON_Parse FUNC_GET_PARAMETERS data

/-- What is read from the body if no string of it is cut. -/
def jsonBody (c : ClientCall) : Built Json :=
  match jsonRequest env cJSON_Parse c with
  | .body item => .body item.printed
  | .refused ret => .refused ret
  | .undefined => .undefined

end Bodies

/-! ### Protobuf -/

inductive Message where
  | CheckPermission (request : amc.CheckPermission)
  | HighFreq (request : amc.HighFreq)
  | RequestCPUCoreForThread (request : amc.RequestCPUCoreForThread)
  | CancelCPUCoreForThread (request : amc.CancelCPUCoreForThread)
  | RequestScreenResolution (request : amc.RequestScreenResolution)
  | RegisterCallback (request : amc.RegisterCallback)
  | RequestBootPreLoadResource (request : amc.RequestBootPreLoadResource)
  | RequestUnifyCPUIOThreadCore (request : amc.RequestUnifyCPUIOThreadCore)
  | CancelUnifyCPUIOThreadCore (request : amc.CancelUnifyCPUIOThreadCore)
  | Configuration (request : amc.Configuration)
  | GetParameters (request : amc.GetParameters)
  /-- no body is sent -/
  | none

/-- The thread ids that are added one by one, if there are any. -/
def addTids (p : Option (Delivery JInt)) (len : JInt) : List JInt :=
  if 0 < len.toInt ∧ p.isSome then ints p len else []

/-- `request.set_data(data)` -/
def setData (data : Option StdString) (message : StdString → Message) : Built Message :=
  match data with
  | none => .undefined
  | some data => .body (message (c_str data))

def protobufBody (env : ClientEnv) : ClientCall → Built Message
  | .checkPermission manufactures certs =>
    .body <| .CheckPermission ⟨
      if manufactures ≠ [] ∧ manufactures.length = certs.length then
        List.zipWith amc.CertTag.mk manufactures certs
      else []⟩
  | .requestCpuHighFreq scene action level timeoutms =>
    .body (.HighFreq { scene := scene, level := level, timeoutMs := timeoutms, action := action })
  | .cancelCpuHighFreq => .body .none
  | .requestGpuHighFreq scene action level timeoutms =>
    .body (.HighFreq { scene := scene, level := level, timeoutMs := timeoutms, action := action })
  | .cancelGpuHighFreq => .body .none
  | .requestCpuCoreForThread scene action bindtids bindlen timeoutms =>
    -- the array is not checked here
    if 0 < bindlen.toInt ∧ bindtids.isNone then .undefined
    else
      .body <| .RequestCPUCoreForThread
        { scene := scene, bindtids := addTids bindtids bindlen, timeoutMs := timeoutms, action := action }
  | .cancelCpuCoreForThread unbindtids unbindlen =>
    if unbindlen.toInt ≤ 0 ∨ unbindtids.isNone then .refused (-2)
    else .body (.CancelCPUCoreForThread { bindtids := addTids unbindtids unbindlen })
  | .requestHighIOFreq scene action level timeoutms =>
    .body (.HighFreq { scene := scene, level := level, timeoutMs := timeoutms, action := action })
  | .cancelHighIOFreq => .body .none
  | .requestScreenResolution level uiName =>
    .body (.RequestScreenResolution { level := level, uiName := uiName })
  | .resetScreenResolution => .body .none
  | .registerANRCallback =>
    .body (.RegisterCallback
      { type := REGISTER_CALLBACK_TYPE_ANR, uid := env.getuid, pid := env.getpid })
  | .registerSystemEventCallback =>
    .body (.RegisterCallback
      { type := REGISTER_CALLBACK_TYPE_SYSTEM_EVENT, uid := env.getuid, pid := env.getpid })
  | .registerBootPreloadResource files =>
    let count : JInt := BitVec.ofNat 32 files.length
    .body (.RequestBootPreLoadResource { filelist := files.take count.toInt.toNat })
  | .terminateApp => .body .none
  | .requestUnifyCpuIOThreadCoreGpu scene action cpulevel iolevel bindtids gpulevel bindlen timeoutms =>
    .body <| .RequestUnifyCPUIOThreadCore
      { scene := scene, action := action, cpulevel := cpulevel, iolevel := iolevel
        gpulevel := some gpulevel, bindtids := addTids bindtids bindlen, timeoutMs := timeoutms }
  | .cancelUnifyCpuIOThreadCoreGpu cancelcpu cancelio cancelthread unbindtids unbindlen cancelgpu =>
    .body <| .CancelUnifyCPUIOThreadCore
      { cancelcpu := cancelcpu, cancelio := cancelio, cancelthread := cancelthread
        cancelgpu := some cancelgpu, bindtids := addTids unbindtids unbindlen }
  | .configure data => setData data fun data => .Configuration ⟨data⟩
  | .getParameters data => setData data fun data => .GetParameters ⟨data⟩

def ClientCall.funcid : ClientCall → BitVec 32
  | .checkPermission _ _ => FUNC_CHECK_PERMISSION
  | .requestCpuHighFreq _ _ _ _ => FUNC_CPU_HIGH_FREQ
  | .cancelCpuHighFreq => FUNC_CANCEL_CPU_HIGH_FREQ
  | .requestGpuHighFreq _ _ _ _ => FUNC_GPU_HIGH_FREQ
  | .cancelGpuHighFreq => FUNC_CANCEL_GPU_HIGH_FREQ
  | .requestCpuCoreForThread _ _ _ _ _ => FUNC_CPU_CORE_FOR_THREAD
  | .cancelCpuCoreForThread _ _ => FUNC_CANCEL_CPU_CORE_FOR_THREAD
  | .requestHighIOFreq _ _ _ _ => FUNC_HIGH_IO_FREQ
  | .cancelHighIOFreq => FUNC_CANCEL_HIGH_IO_FREQ
  | .requestScreenResolution _ _ => FUNC_SET_SCREEN_RESOLUTION
  | .resetScreenResolution => FUNC_RESET_SCREEN_RESOLUTION
  | .registerANRCallback => FUNC_REG_ANR_CALLBACK
  | .registerSystemEventCallback => FUNC_REG_SYSTEM_EVENT_CALLBACK
  | .registerBootPreloadResource _ => FUNC_REG_PRELOAD_BOOT_RESOURCE
  | .terminateApp => FUNC_TERMINATE_APP
  | .requestUnifyCpuIOThreadCoreGpu _ _ _ _ _ _ _ _ => FUNC_UNIFY_CPU_IO_THREAD_CORE_GPU
  | .cancelUnifyCpuIOThreadCoreGpu _ _ _ _ _ _ => FUNC_CANCEL_UNIFY_CPU_IO_THREAD_CORE_GPU
  | .configure _ => FUNC_CONFIGURE
  | .getParameters _ => FUNC_GET_PARAMETERS

namespace ClientEnv
variable (env : ClientEnv) (tid : JInt) (timestamp : JLong)

/-- Three messages have the fields of `HighFreq`. -/
def highFreqCodec (funcid : BitVec 32) : Codec amc.HighFreq :=
  if funcid = FUNC_CPU_HIGH_FREQ then env.pb.RequestCPUHighFreq
  else if funcid = FUNC_GPU_HIGH_FREQ then env.pb.RequestGPUHighFreq
  else env.pb.RequestHighIOFreq

def sendBody (funcid : BitVec 32) : Message → SendResult
  | .CheckPermission request => env.sendMessage env.pb.CheckPermission request funcid tid timestamp
  | .HighFreq request => env.sendMessage (env.highFreqCodec funcid) request funcid tid timestamp
  | .RequestCPUCoreForThread request =>
    env.sendMessage env.pb.RequestCPUCoreForThread request funcid tid timestamp
  | .CancelCPUCoreForThread request =>
    env.sendMessage env.pb.CancelCPUCoreForThread request funcid tid timestamp
  | .RequestScreenResolution request =>
    env.sendMessage env.pb.RequestScreenResolution request funcid tid timestamp
  | .RegisterCallback request => env.sendMessage env.pb.RegisterCallback request funcid tid timestamp
  | .RequestBootPreLoadResource request =>
    env.sendMessage env.pb.RequestBootPreLoadResource request funcid tid timestamp
  | .RequestUnifyCPUIOThreadCore request =>
    env.sendMessage env.pb.RequestUnifyCPUIOThreadCore request funcid tid timestamp
  | .CancelUnifyCPUIOThreadCore request =>
    env.sendMessage env.pb.CancelUnifyCPUIOThreadCore request funcid tid timestamp
  | .Configuration request => env.sendMessage env.pb.Configuration request funcid tid timestamp
  | .GetParameters request => env.sendMessage env.pb.GetParameters request funcid tid timestamp
  | .none => env.sendEmpty funcid tid timestamp

/-- The call, with `data` as the C string that is read. -/
def sendCall : ClientCall → SendResult
  | .checkPermission manufactures certs => env.checkPermission manufactures certs tid timestamp
  | .requestCpuHighFreq scene action level timeoutms =>
    env.requestCpuHighFreq scene action level timeoutms tid timestamp
  | .cancelCpuHighFreq => env.cancelCpuHighFreq tid timestamp
  | .requestGpuHighFreq scene action level timeoutms =>
    env.requestGpuHighFreq scene action level timeoutms tid timestamp
  | .cancelGpuHighFreq => env.cancelGpuHighFreq tid timestamp
  | .requestCpuCoreForThread scene action bindtids bindlen timeoutms =>
    env.requestCpuCoreForThread scene action bindtids bindlen timeoutms tid timestamp
  | .cancelCpuCoreForThread unbindtids unbindlen =>
    env.cancelCpuCoreForThread unbindtids unbindlen tid timestamp
  | .requestHighIOFreq scene action level timeoutms =>
    env.requestHighIOFreq scene action level timeoutms tid timestamp
  | .cancelHighIOFreq => env.cancelHighIOFreq tid timestamp
  | .requestScreenResolution level uiName => env.requestScreenResolution level uiName tid timestamp
  | .resetScreenResolution => env.resetScreenResolution tid timestamp
  | .registerANRCallback => env.registerANRCallback tid timestamp
  | .registerSystemEventCallback => env.registerSystemEventCallback tid timestamp
  | .registerBootPreloadResource files => env.registerBootPreloadResource files tid timestamp
  | .terminateApp => env.terminateApp tid timestamp
  | .requestUnifyCpuIOThreadCoreGpu scene action cpulevel iolevel bindtids gpulevel bindlen timeoutms =>
    env.requestUnifyCpuIOThreadCoreGpu scene action cpulevel iolevel bindtids gpulevel bindlen timeoutms
      tid timestamp
  | .cancelUnifyCpuIOThreadCoreGpu cancelcpu cancelio cancelthread unbindtids unbindlen cancelgpu =>
    env.cancelUnifyCpuIOThreadCoreGpu cancelcpu cancelio cancelthread unbindtids unbindlen cancelgpu
      tid timestamp
  | .configure data => env.configure (c_str (data.getD [])) tid timestamp
  | .getParameters data => env.getParameters (c_str (data.getD [])) tid timestamp

end ClientEnv

theorem addTids_eq_ints (p : Option (Delivery JInt)) (len : JInt) : addTids p len = ints p len := by
  unfold addTids
  split
  · rfl
  · next h =>
    cases p with
    | none => rfl
    | some d =>
      have hlen : len.toInt.toNat = 0 := Int.toNat_of_nonpos (not_lt.mp fun hpos => h ⟨hpos, rfl⟩)
      rw [ints, Option.map_some, hlen, Delivery.read_zero]
      rfl

theorem take_count {files : List StdString} (h : files.length < 2 ^ 31) :
    files.take (BitVec.ofNat 32 files.length : JInt).toInt.toNat = files := by
  have hcount := BitVec.toInt_eq_toNat_cond (BitVec.ofNat 32 files.length)
  rw [BitVec.toNat_ofNat, Nat.mod_eq_of_lt (by omega), if_pos (by omega)] at hcount
  rw [hcount, Int.toNat_natCast, List.take_length]

/-- What the builders of `ClientProtocal` send is this body, unless an `int` cannot count the files. -/
theorem sendCall_of_body {env : ClientEnv} {c : ClientCall} {request : Message}
    (hbody : protobufBody env c = .body request)
    (hfiles : ∀ files, c = .registerBootPreloadResource files → files.length < 2 ^ 31)
    (tid : JInt) (timestamp : JLong) :
    env.sendCall tid timestamp c = env.sendBody tid timestamp c.funcid request := by
  cases c with
  | requestCpuCoreForThread scene action bindtids bindlen timeoutms =>
    rw [protobufBody] at hbody
    split at hbody
    · cases hbody
    · rw [addTids_eq_ints] at hbody
      cases hbody
      rfl
  | cancelCpuCoreForThread unbindtids unbindlen =>
    rw [protobufBody] at hbody
    split at hbody
    · cases hbody
    · next h =>
      rw [addTids_eq_ints] at hbody
      cases hbody
      exact if_neg h
  | registerBootPreloadResource files =>
    have htake := take_count (hfiles files rfl)
    simp only [protobufBody, htake] at hbody
    cases hbody
    rfl
  | requestUnifyCpuIOThreadCoreGpu scene action cpulevel iolevel bindtids gpulevel bindlen timeoutms =>
    rw [protobufBody, addTids_eq_ints] at hbody
    cases hbody
    rfl
  | cancelUnifyCpuIOThreadCoreGpu cancelcpu cancelio cancelthread unbindtids unbindlen cancelgpu =>
    rw [protobufBody, addTids_eq_ints] at hbody
    cases hbody
    rfl
  | configure data | getParameters data =>
    cases data with
    | none => cases hbody
    | some data =>
      cases hbody
      rfl
  | _ =>
    cases hbody
    rfl

end Hardcoder
