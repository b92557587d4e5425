import Hardcoder.ClientProtocal
import Mathlib.Data.List.TakeWhile

/-! The native methods of `HardCoderJNI` that send a request. -/

namespace Hardcoder
open Stream
set_option autoImplicit false

/-- A Java array: `GetArrayLength` is a `jint`. -/
abbrev JArray (α : Type) := { xs : List α // xs.length < 2 ^ 31 }

/-- The UTF-16 units of a Java string. -/
abbrev JString := List (BitVec 16)

/-- Modified UTF-8 of one unit; the zero unit takes two bytes. -/
def unitBytes (u : BitVec 16) : List UInt8 :=
  let n := u.toNat
  if 0 < n ∧ n < 0x80 then [UInt8.ofNat n]
  else if n < 0x800 then [UInt8.ofNat (0xC0 + n / 0x40), UInt8.ofNat (0x80 + n % 0x40)]
  else [UInt8.ofNat (0xE0 + n / 0x1000), UInt8.ofNat (0x80 + n / 0x40 % 0x40),
    UInt8.ofNat (0x80 + n % 0x40)]

/-- `GetStringUTFChars` -/
def modifiedUtf8 (s : JString) : List UInt8 := s.flatMap unitBytes

/-- `strdup` of the modified UTF-8, which ends at the first zero byte. -/
def jstringToChars (s : JString) : StdString := (modifiedUtf8 s).takeWhile (· ≠ 0)

theorem zero_notMem_unitBytes (u : BitVec 16) : 0 ∉ unitBytes u := by
  have hu := u.isLt
  have hbyte {n : Nat} (h : 0 < n % 256) : (0 : UInt8) ≠ UInt8.ofNat n := by
    intro heq
    have := congrArg UInt8.toNat heq
    simp at this
    omega
  unfold unitBytes
  dsimp only
  split
  · simpa using hbyte (by omega)
  · split
    · simp only [List.mem_cons, List.not_mem_nil, or_false, not_or]
      exact ⟨hbyte (by omega), hbyte (by omega)⟩
    · simp only [List.mem_cons, List.not_mem_nil, or_false, not_or]
      exact ⟨hbyte (by omega), hbyte (by omega), hbyte (by omega)⟩

@[simp] theorem jstringToChars_eq (s : JString) : jstringToChars s = modifiedUtf8 s := by
  have hzero : ∀ b ∈ modifiedUtf8 s, b ≠ 0 := by
    intro b hb hb0
    obtain ⟨u, -, hu⟩ := List.mem_flatMap.mp hb
    exact zero_notMem_unitBytes u (hb0 ▸ hu)
  exact List.takeWhile_eq_self_iff.mpr fun b hb => decide_eq_true (hzero b hb)

/-- Copies that carry no terminator, and the memory that lies behind them. -/
structure JniHeap where
  behindInts : Nat → JInt
  behindBytes : List UInt8

/-- The copy, null for a null or empty array, and the length. -/
def jintArrayToInts (mem : JniHeap) (sarr : Option (JArray JInt)) : Option (Delivery JInt) × JInt :=
  match sarr with
  | none => (none, 0)
  | some sarr =>
    (if sarr.val.length = 0 then none else some ⟨sarr.val, mem.behindInts⟩,
      BitVec.ofNat 32 sarr.val.length)

/-- The bytes in memory from the copy on, null for a null or empty array. -/
def jbyteArrayToChars (mem : JniHeap) (barr : Option (JArray UInt8)) : Option (List UInt8) :=
  match barr with
  | none => none
  | some barr => if barr.val.length = 0 then none else some (barr.val ++ mem.behindBytes)

/-- The bytes before the first zero; `none` when the mapped memory holds none. -/
def cString (bytes : List UInt8) : Option StdString :=
  if 0 ∈ bytes then some (bytes.takeWhile (· ≠ 0)) else none

/-- `dataBuf == NULL ? "" : dataBuf`, taken for a C string -/
def dataString (dataBuf : Option (List UInt8)) : Option StdString :=
  match dataBuf with
  | none => some []
  | some bytes => cString bytes

/-- A call of a native method with the arguments of the Java declaration. Strings
and the arrays of strings are not null. -/
inductive NativeCall where
  | checkPermission (manufactures certs : JArray JString) (pid uid tid : JInt) (timestamp : JLong)
  | requestCpuHighFreq (scene : JInt) (action : JLong) (level timeoutms tid : JInt)
      (timestamp : JLong)
  | cancelCpuHighFreq (tid : JInt) (timestamp : JLong)
  | requestGpuHighFreq (scene : JInt) (action : JLong) (level timeoutms tid : JInt)
      (timestamp : JLong)
  | cancelGpuHighFreq (tid : JInt) (timestamp : JLong)
  | requestCpuCoreForThread (scene : JInt) (action : JLong) (bindtids : Option (JArray JInt))
      (timeoutms tid : JInt) (timestamp : JLong)
  | cancelCpuCoreForThread (bindtids : Option (JArray JInt)) (tid : JInt) (timestamp : JLong)
  | requestHighIOFreq (scene : JInt) (action : JLong) (level timeoutms tid : JInt)
      (timestamp : JLong)
  | cancelHighIOFreq (tid : JInt) (timestamp : JLong)
  | requestScreenResolution (level : JInt) (uiName : JString) (tid : JInt) (timestamp : JLong)
  | resetScreenResolution (tid : JInt) (timestamp : JLong)
  | registerANRCallback (tid : JInt) (timestamp : JLong)
  | registerSystemEventCallback (tid : JInt) (timestamp : JLong)
  | registerBootPreloadResource (files : JArray JString) (tid : JInt) (timestamp : JLong)
  | terminateApp (tid : JInt) (timestamp : JLong)
  | requestUnifyCpuIOThreadCoreGpu (scene : JInt) (action : JLong) (cpulevel gpulevel iolevel : JInt)
      (bindtids : Option (JArray JInt)) (timeout tid : JInt) (timestamp : JLong)
  | cancelUnifyCpuIOThreadCoreGpu (cancelcpu cancelgpu cancelio cancelthread : Bool)
      (bindtids : Option (JArray JInt)) (tid : JInt) (timestamp : JLong)
  | configure (data : Option (JArray UInt8)) (tid : JInt) (timestamp : JLong)
  | getParameters (data : Option (JArray UInt8)) (tid : JInt) (timestamp : JLong)

/-- `flag ? 1 : 0` -/
def jflag (flag : Bool) : JInt := if flag then 1 else 0

/-- The native method's body. `none`: it reads on into unmapped memory. -/
def native (env : ClientEnv) (mem : JniHeap) : NativeCall → Option SendResult
  | .checkPermission manufactures certs _ _ tid timestamp =>
    some (env.checkPermission (manufactures.val.map jstringToChars) (certs.val.map jstringToChars)
      tid timestamp)
  | .requestCpuHighFreq scene action level timeoutms tid timestamp =>
    some (env.requestCpuHighFreq scene action level timeoutms tid timestamp)
  | .cancelCpuHighFreq tid timestamp => some (env.cancelCpuHighFreq tid timestamp)
  | .requestGpuHighFreq scene action level timeoutms tid timestamp =>
    some (env.requestGpuHighFreq scene action level timeoutms tid timestamp)
  | .cancelGpuHighFreq tid timestamp => some (env.cancelGpuHighFreq tid timestamp)
  | .requestCpuCoreForThread scene action bindtids timeoutms tid timestamp =>
    let tids := jintArrayToInts mem bindtids
    some (env.requestCpuCoreForThread scene action tids.1 tids.2 timeoutms tid timestamp)
  | .cancelCpuCoreForThread bindtids tid timestamp =>
    let tids := jintArrayToInts mem bindtids
    some (env.cancelCpuCoreForThread tids.1 tids.2 tid timestamp)
  | .requestHighIOFreq scene action level timeoutms tid timestamp =>
    some (env.requestHighIOFreq scene action level timeoutms tid timestamp)
  | .cancelHighIOFreq tid timestamp => some (env.cancelHighIOFreq tid timestamp)
  | .requestScreenResolution level uiName tid timestamp =>
    some (env.requestScreenResolution level (jstringToChars uiName) tid timestamp)
  | .resetScreenResolution tid timestamp => some (env.resetScreenResolution tid timestamp)
  | .registerANRCallback tid timestamp => some (env.registerANRCallback tid timestamp)
  | .registerSystemEventCallback tid timestamp =>
    some (env.registerSystemEventCallback tid timestamp)
  | .registerBootPreloadResource files tid timestamp =>
    some (env.registerBootPreloadResource (files.val.map jstringToChars) tid timestamp)
  | .terminateApp tid timestamp => some (env.terminateApp tid timestamp)
  | .requestUnifyCpuIOThreadCoreGpu scene action cpulevel gpulevel iolevel bindtids timeout tid
      timestamp =>
    let tids := jintArrayToInts mem bindtids
    -- the builder takes `gpulevel` before `bindlen`
    some (env.requestUnifyCpuIOThreadCoreGpu scene action cpulevel iolevel tids.1 tids.2 gpulevel
      timeout tid timestamp)
  | .cancelUnifyCpuIOThreadCoreGpu cancelcpu cancelgpu cancelio cancelthread bindtids tid
      timestamp =>
    let tids := jintArrayToInts mem bindtids
    some (env.cancelUnifyCpuIOThreadCoreGpu (jflag cancelcpu) (jflag cancelio) (jflag cancelthread)
      tids.1 tids.2 (jflag cancelgpu) tid timestamp)
  | .configure data tid timestamp =>
    (dataString (jbyteArrayToChars mem data)).map fun s => env.configure s tid timestamp
  | .getParameters data tid timestamp =>
    (dataString (jbyteArrayToChars mem data)).map fun s => env.getParameters s tid timestamp

end Hardcoder
