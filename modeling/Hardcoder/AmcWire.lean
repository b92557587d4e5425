import Hardcoder.Amc
import Hardcoder.Lib.ProtobufWire
import Mathlib.Tactic.NormNum

/-! The wire format of amc.proto: field numbers and types of every message. -/

namespace Hardcoder
open ProtobufWire
set_option autoImplicit false

namespace AmcWire

/-- Negative `int32` values are sign-extended to ten bytes. -/
def ofInt32 (x : JInt) : Value := .varint (x.signExtend 64).toNat

def toInt32 (v : Value) : Option JInt := v.varint?.map fun n => BitVec.ofNat 32 n

def ofInt64 (x : JLong) : Value := .varint x.toNat

def toInt64 (v : Value) : Option JLong := v.varint?.map fun n => BitVec.ofNat 64 n

@[simp] theorem toInt32_ofInt32 (x : JInt) : toInt32 (ofInt32 x) = some x := by
  have h : BitVec.ofNat 32 (x.signExtend 64).toNat = x := by
    apply BitVec.eq_of_getLsbD_eq
    intro i hi
    simp [BitVec.getLsbD_signExtend, hi]
    omega
  simp [toInt32, ofInt32, Value.varint?, h]

@[simp] theorem toInt64_ofInt64 (x : JLong) : toInt64 (ofInt64 x) = some x := by
  simp [toInt64, ofInt64, Value.varint?]

@[simp] theorem bytes?_bytes (bs : StdString) : Value.bytes? (.bytes bs) = some bs := rfl

def int32 (number : Nat) (fs : List Field) : JInt := (last number toInt32 fs).getD 0

def int64 (number : Nat) (fs : List Field) : JLong := (last number toInt64 fs).getD 0

def string (number : Nat) (fs : List Field) : StdString := (last number Value.bytes? fs).getD []

/-- A message as fields, the message some fields are, and whether the required ones
are among them. -/
structure Schema (M : Type) where
  fields : M → List Field
  message : List Field → M
  complete : List Field → Bool
  message_fields : ∀ m, message (fields m) = m
  complete_fields : ∀ m, complete (fields m) = true

def Schema.codec {M : Type} (s : Schema M) : Codec M where
  SerializeToArray m := serialize (s.fields m)
  ParseFromArray bs := ((parse bs).1 && s.complete (parse bs).2, s.message (parse bs).2)

theorem Schema.codec_inverse {M : Type} (s : Schema M) : s.codec.Inverse := by
  intro m
  simp [codec, s.message_fields, s.complete_fields]

def has {α : Type} (number : Nat) (as : Value → Option α) (fs : List Field) : Bool :=
  (last number as fs).isSome

def certTag : Schema amc.CertTag where
  fields m := [⟨1, .bytes m.manufacture⟩, ⟨2, .bytes m.cert⟩]
  message fs := ⟨string 1 fs, string 2 fs⟩
  complete fs := has 1 Value.bytes? fs && has 2 Value.bytes? fs
  message_fields m := by simp [string, last]
  complete_fields m := by simp [has, last]

def checkPermission : Schema amc.CheckPermission where
  fields m := m.certTags.map fun t => ⟨1, .bytes (certTag.codec.SerializeToArray t)⟩
  message fs :=
    ⟨(all 1 Value.bytes? fs).map fun bs => (certTag.codec.ParseFromArray bs).2⟩
  complete fs := (all 1 Value.bytes? fs).all fun bs => (certTag.codec.ParseFromArray bs).1
  message_fields m := by
    have hinv := certTag.codec_inverse
    rw [all_map_eq (h := certTag.codec.SerializeToArray) 1 _ (fun _ => rfl), List.map_map]
    have hid : (fun bs => (certTag.codec.ParseFromArray bs).2) ∘ certTag.codec.SerializeToArray =
        id := funext fun t => congrArg Prod.snd (hinv t)
    rw [hid, List.map_id]
  complete_fields m := by
    rw [all_map_eq (h := certTag.codec.SerializeToArray) 1 _ (fun _ => rfl), List.all_map,
      List.all_eq_true]
    exact fun t _ => congrArg Prod.fst (certTag.codec_inverse t)

def highFreq : Schema amc.HighFreq where
  fields m := [⟨1, ofInt32 m.scene⟩, ⟨2, ofInt32 m.level⟩, ⟨3, ofInt32 m.timeoutMs⟩,
    ⟨4, ofInt64 m.action⟩]
  message fs := ⟨int32 1 fs, int32 2 fs, int32 3 fs, int64 4 fs⟩
  complete fs := has 1 toInt32 fs && has 2 toInt32 fs && has 3 toInt32 fs && has 4 toInt64 fs
  message_fields m := by simp [int32, int64, last]
  complete_fields m := by simp [has, last]

def tids (number : Nat) (xs : List JInt) : List Field := xs.map fun x => ⟨number, ofInt32 x⟩

@[simp] theorem all_tids (number : Nat) (xs : List JInt) : all number toInt32 (tids number xs) = xs := by
  rw [tids, all_map_eq (h := id) number _ toInt32_ofInt32, List.map_id]

@[simp] theorem all_tids_ne {α : Type} {n m : Nat} (h : m ≠ n) (as : Value → Option α)
    (xs : List JInt) : all n as (tids m xs) = [] := by
  rw [tids, all_map_ne n as h]

def cpuCoreForThread : Schema amc.RequestCPUCoreForThread where
  fields m := ⟨1, ofInt32 m.scene⟩ :: (tids 2 m.bindtids ++
    [⟨3, ofInt32 m.timeoutMs⟩, ⟨4, ofInt64 m.action⟩])
  message fs := ⟨int32 1 fs, all 2 toInt32 fs, int32 3 fs, int64 4 fs⟩
  complete fs := has 1 toInt32 fs && has 3 toInt32 fs && has 4 toInt64 fs
  message_fields m := by simp [int32, int64, last]
  complete_fields m := by simp [has, last]

def cancelCpuCoreForThread : Schema amc.CancelCPUCoreForThread where
  fields m := tids 1 m.bindtids
  message fs := ⟨all 1 toInt32 fs⟩
  complete _ := true
  message_fields m := by simp
  complete_fields _ := rfl

def screenResolution : Schema amc.RequestScreenResolution where
  fields m := [⟨1, ofInt32 m.level⟩, ⟨2, .bytes m.uiName⟩]
  message fs := ⟨int32 1 fs, string 2 fs⟩
  complete fs := has 1 toInt32 fs && has 2 Value.bytes? fs
  message_fields m := by simp [int32, string, last]
  complete_fields m := by simp [has, last]

def bootPreLoadResource : Schema amc.RequestBootPreLoadResource where
  fields m := m.filelist.map fun file => ⟨1, .bytes file⟩
  message fs := ⟨all 1 Value.bytes? fs⟩
  complete _ := true
  message_fields m := by simp [all_map_eq (h := id) 1 Value.bytes? bytes?_bytes]
  complete_fields _ := rfl

def configuration : Schema amc.Configuration where
  fields m := [⟨1, .bytes m.data⟩]
  message fs := ⟨string 1 fs⟩
  complete fs := has 1 Value.bytes? fs
  message_fields m := by simp [string, last]
  complete_fields m := by simp [has, last]

def getParameters : Schema amc.GetParameters where
  fields m := [⟨1, .bytes m.data⟩]
  message fs := ⟨string 1 fs⟩
  complete fs := has 1 Value.bytes? fs
  message_fields m := by simp [string, last]
  complete_fields m := by simp [has, last]

def registerCallback : Schema amc.RegisterCallback where
  fields m := [⟨1, ofInt32 m.type⟩, ⟨2, ofInt32 m.uid⟩, ⟨3, ofInt32 m.pid⟩]
  message fs := ⟨int32 1 fs, int32 2 fs, int32 3 fs⟩
  complete fs := has 1 toInt32 fs && has 2 toInt32 fs && has 3 toInt32 fs
  message_fields m := by simp [int32, last]
  complete_fields m := by simp [has, last]

def dataCallback : Schema amc.DataCallback where
  fields m := [⟨1, ofInt32 m.type⟩, ⟨2, .bytes m.data⟩]
  message fs := ⟨int32 1 fs, string 2 fs⟩
  complete fs := has 1 toInt32 fs && has 2 Value.bytes? fs
  message_fields m := by simp [int32, string, last]
  complete_fields m := by simp [has, last]

/-- An optional field that is not set is not written. -/
def optional (number : Nat) (x : Option JInt) : List Field := tids number x.toList

def unifyCpuIOThreadCore : Schema amc.RequestUnifyCPUIOThreadCore where
  fields m := ⟨1, ofInt32 m.scene⟩ :: ⟨2, ofInt32 m.cpulevel⟩ :: ⟨3, ofInt32 m.iolevel⟩ ::
    (tids 4 m.bindtids ++ (⟨5, ofInt32 m.timeoutMs⟩ :: ⟨6, ofInt64 m.action⟩ ::
      optional 7 m.gpulevel))
  message fs := ⟨int32 1 fs, int32 2 fs, int32 3 fs, all 4 toInt32 fs, int32 5 fs, int64 6 fs,
    last 7 toInt32 fs⟩
  complete fs := has 1 toInt32 fs && has 2 toInt32 fs && has 3 toInt32 fs && has 5 toInt32 fs &&
    has 6 toInt64 fs
  message_fields m := by
    obtain ⟨_, _, _, _, _, _, gpulevel⟩ := m
    cases gpulevel <;> simp [int32, int64, last, optional]
  complete_fields m := by simp [has, last, optional]

def cancelUnifyCpuIOThreadCore : Schema amc.CancelUnifyCPUIOThreadCore where
  fields m := ⟨1, ofInt32 m.cancelcpu⟩ :: ⟨2, ofInt32 m.cancelio⟩ :: ⟨3, ofInt32 m.cancelthread⟩ ::
    (tids 4 m.bindtids ++ optional 5 m.cancelgpu)
  message fs := ⟨int32 1 fs, int32 2 fs, int32 3 fs, all 4 toInt32 fs, last 5 toInt32 fs⟩
  complete fs := has 1 toInt32 fs && has 2 toInt32 fs && has 3 toInt32 fs
  message_fields m := by
    obtain ⟨_, _, _, _, cancelgpu⟩ := m
    cases cancelgpu <;> simp [int32, last, optional]
  complete_fields m := by simp [has, last, optional]

end AmcWire

open AmcWire in
/-- The serializers of amc.proto. -/
def amcWire : Protobuf where
  CheckPermission := checkPermission.codec
  RequestCPUHighFreq := highFreq.codec
  RequestGPUHighFreq := highFreq.codec
  RequestHighIOFreq := highFreq.codec
  RequestCPUCoreForThread := cpuCoreForThread.codec
  CancelCPUCoreForThread := cancelCpuCoreForThread.codec
  RequestScreenResolution := screenResolution.codec
  RequestBootPreLoadResource := bootPreLoadResource.codec
  Configuration := configuration.codec
  GetParameters := getParameters.codec
  RegisterCallback := registerCallback.codec
  RequestUnifyCPUIOThreadCore := unifyCpuIOThreadCore.codec
  CancelUnifyCPUIOThreadCore := cancelUnifyCpuIOThreadCore.codec

open AmcWire in
theorem amcWire_inverse : amcWire.Inverse where
  CheckPermission := checkPermission.codec_inverse
  RequestCPUHighFreq := highFreq.codec_inverse
  RequestGPUHighFreq := highFreq.codec_inverse
  RequestHighIOFreq := highFreq.codec_inverse
  RequestCPUCoreForThread := cpuCoreForThread.codec_inverse
  CancelCPUCoreForThread := cancelCpuCoreForThread.codec_inverse
  RequestScreenResolution := screenResolution.codec_inverse
  RequestBootPreLoadResource := bootPreLoadResource.codec_inverse
  Configuration := configuration.codec_inverse
  GetParameters := getParameters.codec_inverse
  RegisterCallback := registerCallback.codec_inverse
  RequestUnifyCPUIOThreadCore := unifyCpuIOThreadCore.codec_inverse
  CancelUnifyCPUIOThreadCore := cancelUnifyCpuIOThreadCore.codec_inverse

end Hardcoder
