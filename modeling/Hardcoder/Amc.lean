import Mathlib.Data.List.Basic

/-! The messages of amc.proto. Required fields are plain values: every request
builder sets all of them. The generated serializers are a parameter. -/

namespace Hardcoder
set_option autoImplicit false

abbrev JInt := BitVec 32
abbrev JLong := BitVec 64

/-- `std::string` -/
abbrev StdString := List UInt8

namespace amc

structure CertTag where
  manufacture : StdString
  cert : StdString
deriving DecidableEq, Repr, Inhabited

structure CheckPermission where
  certTags : List CertTag
deriving DecidableEq, Repr, Inhabited

/-- The three frequency requests have the same fields under the same numbers. -/
structure HighFreq where
  scene : JInt
  level : JInt
  timeoutMs : JInt
  action : JLong
deriving DecidableEq, Repr, Inhabited

abbrev RequestCPUHighFreq := HighFreq
abbrev RequestGPUHighFreq := HighFreq
abbrev RequestHighIOFreq := HighFreq

structure RequestCPUCoreForThread where
  scene : JInt
  bindtids : List JInt
  timeoutMs : JInt
  action : JLong
deriving DecidableEq, Repr, Inhabited

structure CancelCPUCoreForThread where
  bindtids : List JInt
deriving DecidableEq, Repr, Inhabited

structure RequestScreenResolution where
  level : JInt
  uiName : StdString
deriving DecidableEq, Repr, Inhabited

structure RequestBootPreLoadResource where
  filelist : List StdString
deriving DecidableEq, Repr, Inhabited

structure Configuration where
  data : StdString
deriving DecidableEq, Repr, Inhabited

structure GetParameters where
  data : StdString
deriving DecidableEq, Repr, Inhabited

structure RegisterCallback where
  type : JInt
  uid : JInt
  pid : JInt
deriving DecidableEq, Repr, Inhabited

structure DataCallback where
  type : JInt
  data : StdString
deriving DecidableEq, Repr, Inhabited

structure RequestUnifyCPUIOThreadCore where
  scene : JInt
  cpulevel : JInt
  iolevel : JInt
  bindtids : List JInt
  timeoutMs : JInt
  action : JLong
  gpulevel : Option JInt
deriving DecidableEq, Repr, Inhabited

structure CancelUnifyCPUIOThreadCore where
  cancelcpu : JInt
  cancelio : JInt
  cancelthread : JInt
  bindtids : List JInt
  cancelgpu : Option JInt
deriving DecidableEq, Repr, Inhabited

end amc

/-- What protoc generates for a message. `ParseFromArray` leaves in the message what
it read before it failed. -/
structure Codec (M : Type) where
  SerializeToArray : M → List UInt8
  ParseFromArray : List UInt8 → Bool × M

def Codec.Inverse {M : Type} (c : Codec M) : Prop :=
  ∀ m, c.ParseFromArray (c.SerializeToArray m) = (true, m)

/-- amc.pb.h, as far as requests use it -/
structure Protobuf where
  CheckPermission : Codec amc.CheckPermission
  RequestCPUHighFreq : Codec amc.RequestCPUHighFreq
  RequestGPUHighFreq : Codec amc.RequestGPUHighFreq
  RequestHighIOFreq : Codec amc.RequestHighIOFreq
  RequestCPUCoreForThread : Codec amc.RequestCPUCoreForThread
  CancelCPUCoreForThread : Codec amc.CancelCPUCoreForThread
  RequestScreenResolution : Codec amc.RequestScreenResolution
  RequestBootPreLoadResource : Codec amc.RequestBootPreLoadResource
  Configuration : Codec amc.Configuration
  GetParameters : Codec amc.GetParameters
  RegisterCallback : Codec amc.RegisterCallback
  RequestUnifyCPUIOThreadCore : Codec amc.RequestUnifyCPUIOThreadCore
  CancelUnifyCPUIOThreadCore : Codec amc.CancelUnifyCPUIOThreadCore

/-- Parsing inverts serializing, message by message. -/
structure Protobuf.Inverse (pb : Protobuf) : Prop where
  CheckPermission : pb.CheckPermission.Inverse
  RequestCPUHighFreq : pb.RequestCPUHighFreq.Inverse
  RequestGPUHighFreq : pb.RequestGPUHighFreq.Inverse
  RequestHighIOFreq : pb.RequestHighIOFreq.Inverse
  RequestCPUCoreForThread : pb.RequestCPUCoreForThread.Inverse
  CancelCPUCoreForThread : pb.CancelCPUCoreForThread.Inverse
  RequestScreenResolution : pb.RequestScreenResolution.Inverse
  RequestBootPreLoadResource : pb.RequestBootPreLoadResource.Inverse
  Configuration : pb.Configuration.Inverse
  GetParameters : pb.GetParameters.Inverse
  RegisterCallback : pb.RegisterCallback.Inverse
  RequestUnifyCPUIOThreadCore : pb.RequestUnifyCPUIOThreadCore.Inverse
  CancelUnifyCPUIOThreadCore : pb.CancelUnifyCPUIOThreadCore.Inverse

end Hardcoder
