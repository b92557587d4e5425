import Hardcoder.HardCoderJNI
import Hardcoder.ServerFraming
import Hardcoder.AmcWire

/-! From a native method to the handler: what a request carries through the builder,
the packet and `processReceive`. -/

namespace Hardcoder
open Stream
set_option autoImplicit false

/-- The packet arrives whole: `processReceive` gets its header and its body. -/
def ServerEnv.receivePacket (srv : ServerEnv) (uid : JInt) (pack : List UInt8) : Processed :=
  let pHead := AMCReqHeader.decode pack
  let body := pack.drop AMCReqHeader.size
  srv.processReceive pHead uid (if body = [] then none else some body) pHead.bodylen

/-- The thread ids of an `int[]`; null lists none. -/
def tidList (bindtids : Option (JArray JInt)) : List JInt := (bindtids.map (·.val)).getD []

def byteList (data : Option (JArray UInt8)) : List UInt8 := (data.map (·.val)).getD []

/-- The handler call with the arguments the Java caller gave: strings in modified
UTF-8, flags as 0 or 1, a registration for the calling process. -/
def requested (getuid uid : JInt) : NativeCall → HardCoderCall
  | .checkPermission manufactures certs _ _ tid timestamp =>
    .checkPermission (manufactures.val.map modifiedUtf8) (certs.val.map modifiedUtf8)
      FUNC_CHECK_PERMISSION uid tid timestamp
  | .requestCpuHighFreq scene action level timeoutms tid timestamp =>
    .requestCpuHighFreq scene action level timeoutms tid timestamp
  | .cancelCpuHighFreq tid timestamp => .cancelCpuHighFreq tid timestamp
  | .requestGpuHighFreq scene action level timeoutms tid timestamp =>
    .requestGpuHighFreq scene action level timeoutms tid timestamp
  | .cancelGpuHighFreq tid timestamp => .cancelGpuHighFreq tid timestamp
  | .requestCpuCoreForThread scene action bindtids timeoutms tid timestamp =>
    .requestCpuCoreForThread scene action (tidList bindtids) timeoutms tid timestamp
  | .cancelCpuCoreForThread bindtids tid timestamp =>
    .cancelCpuCoreForThread (tidList bindtids) tid timestamp
  | .requestHighIOFreq scene action level timeoutms tid timestamp =>
    .requestHighIOFreq scene action level timeoutms tid timestamp
  | .cancelHighIOFreq tid timestamp => .cancelHighIOFreq tid timestamp
  | .requestScreenResolution level uiName tid timestamp =>
    .requestScreenResolution level (modifiedUtf8 uiName) tid timestamp
  | .resetScreenResolution tid timestamp => .resetScreenResolution tid timestamp
  | .registerANRCallback tid timestamp => .registerAnrCallback getuid tid timestamp
  | .registerSystemEventCallback tid timestamp =>
    .registerSystemEventCallback getuid tid timestamp
  | .registerBootPreloadResource files tid timestamp =>
    .registerBootPreloadResource (files.val.map modifiedUtf8) tid timestamp
  | .terminateApp tid timestamp => .terminateApp tid timestamp
  | .requestUnifyCpuIOThreadCoreGpu scene action cpulevel gpulevel iolevel bindtids timeout tid
      timestamp =>
    .requestUnifyCpuIOThreadCoreGpu scene action cpulevel iolevel (tidList bindtids) gpulevel
      timeout tid timestamp
  | .cancelUnifyCpuIOThreadCoreGpu cancelcpu cancelgpu cancelio cancelthread bindtids tid
      timestamp =>
    .cancelUnifyCpuIOThreadCoreGpu (jflag cancelcpu) (jflag cancelio) (jflag cancelthread)
      (tidList bindtids) (jflag cancelgpu) tid timestamp
  | .configure data tid timestamp => .configure (byteList data) tid timestamp
  | .getParameters data tid timestamp => .getParameters (byteList data) tid timestamp

/-- The copy of the array is the C string the builder takes it for. -/
def Terminated (mem : JniHeap) (data : Option (JArray UInt8)) : Prop :=
  byteList data = [] ∨ (0 ∉ byteList data ∧ mem.behindBytes.head? = some 0)

/-- The arguments arrive: lists in the lengths the builders take for granted, and
arrays of bytes that end where their C string ends. -/
def Faithful (mem : JniHeap) : NativeCall → Prop
  | .checkPermission manufactures certs _ _ _ _ => manufactures.val.length = certs.val.length
  | .requestUnifyCpuIOThreadCoreGpu _ _ _ gpulevel _ bindtids _ _ _ =>
    gpulevel = BitVec.ofNat 32 (tidList bindtids).length
  | .configure data _ _ => Terminated mem data
  | .getParameters data _ _ => Terminated mem data
  | _ => True

theorem Request.genPack_refused {v : BitVec 16} (hv : v < HEADER_PROTOCAL_VERSION) (r : Request) :
    r.genPack v = .error (-1) := by
  have hf := r.funcid_le
  rw [genPack, genReqPack, if_neg r.null_empty, if_neg (by omega), if_pos hv]

section Packet
variable {env : ClientEnv} (srv : ServerEnv) (uid : JInt) {tid : JInt} {timestamp : JLong}
  {funcid : BitVec 32} {pack : List UInt8}

theorem sendReq_packet {pEngine : IClientEngine} {data : Option (List UInt8)} {dataLen : JInt}
    (h : (env.sendReq pEngine funcid data dataLen tid timestamp).packet = some pack) :
    (genReqPack env.HEADER_VERSION env.heap env.now funcid data dataLen tid timestamp).outPack =
      some pack := by
  unfold ClientEnv.sendReq at h
  dsimp only at h
  split at h
  · simp at h
  · split at h
    · simp at h
    · exact h

theorem sendReq_received (hv : env.HEADER_VERSION < HEADER_JSON_VERSION) {pEngine : IClientEngine}
    {data : Option (List UInt8)} (hf : funcid.toNat ≤ 65535) (hlt : (data.getD []).length < 2 ^ 31)
    (h : (env.sendReq pEngine funcid data (BitVec.ofNat 32 (data.getD []).length) tid
      timestamp).packet = some pack) :
    ∃ len, srv.receivePacket uid pack =
      srv.dispatch (reqHeader env.HEADER_VERSION env.now funcid len tid timestamp) uid
        (data.getD []) := by
  let r : Request := ⟨funcid, data, tid, timestamp, env.now, env.heap, hf, hlt⟩
  have hgen : (r.genPack env.HEADER_VERSION).outPack = some pack := sendReq_packet h
  have hlo : HEADER_PROTOCAL_VERSION ≤ env.HEADER_VERSION := by
    by_contra hlo
    rw [r.genPack_refused (BitVec.not_le.mp hlo)] at hgen
    cases hgen
  have hpack : pack = (r.header env.HEADER_VERSION).encode ++ r.body := by
    rw [r.genPack_eq hlo hv] at hgen
    exact (Option.some.inj hgen).symm
  refine ⟨r.dataLen, ?_⟩
  have hdecode := AMCReqHeader.decode_encode_append (r.header env.HEADER_VERSION) r.body
  have hdrop : ((r.header env.HEADER_VERSION).encode ++ r.body).drop AMCReqHeader.size = r.body :=
    List.drop_left' (AMCReqHeader.length_encode _)
  have hlen := r.toNat_dataLen
  have hcopied : copied (if r.body = [] then none else some r.body) r.dataLen = r.body := by
    unfold copied
    split
    · simp_all
    · rw [hlen, Option.getD_some, List.take_length]
  have hnull : ¬ ((if r.body = [] then none else some r.body) = none ∧ r.dataLen ≠ 0) := by
    rintro ⟨hnone, hne⟩
    split at hnone
    · rename_i hbody
      rw [hbody, List.length_nil] at hlen
      exact hne (BitVec.eq_of_toNat_eq (by simpa using hlen))
    · simp at hnone
  simp only [ServerEnv.receivePacket, hpack, hdecode, hdrop, Request.header_bodylen,
    ServerEnv.processReceive, if_neg hnull, hcopied]
  exact if_neg (BitVec.not_lt.mpr hlo)

theorem withEngine_packet {k : IClientEngine → SendResult}
    (h : (env.withEngine k).packet = some pack) : ∃ pEngine, (k pEngine).packet = some pack := by
  unfold ClientEnv.withEngine at h
  cases hengine : env.engine with
  | none => simp [hengine] at h
  | some pEngine => exact ⟨pEngine, by simpa [hengine] using h⟩

theorem sendEmpty_received (hv : env.HEADER_VERSION < HEADER_JSON_VERSION)
    (hf : funcid.toNat ≤ 65535) (h : (env.sendEmpty funcid tid timestamp).packet = some pack) :
    ∃ len, srv.receivePacket uid pack =
      srv.dispatch (reqHeader env.HEADER_VERSION env.now funcid len tid timestamp) uid [] := by
  obtain ⟨pEngine, h⟩ := withEngine_packet h
  have hlt : ((none : Option (List UInt8)).getD []).length < 2 ^ 31 := by decide
  have hrec := sendReq_received srv uid hv hf hlt h
  exact hrec

theorem sendMessage_received (hv : env.HEADER_VERSION < HEADER_JSON_VERSION) {M : Type}
    {codec : Codec M} {m : M} (hf : funcid.toNat ≤ 65535)
    (h : (env.sendMessage codec m funcid tid timestamp).packet = some pack) :
    ∃ len, srv.receivePacket uid pack =
      srv.dispatch (reqHeader env.HEADER_VERSION env.now funcid len tid timestamp) uid
        (codec.SerializeToArray m) := by
  obtain ⟨pEngine, h⟩ := withEngine_packet h
  split at h
  · simp at h
  · rename_i hlt
    have hlt : ((some (codec.SerializeToArray m)).getD []).length < 2 ^ 31 := by simpa using hlt
    have hrec := sendReq_received srv uid hv hf hlt h
    exact hrec

end Packet

theorem takeWhile_append_eq_iff {xs ys : List UInt8} (h : 0 ∈ xs ++ ys) :
    (xs ++ ys).takeWhile (· ≠ 0) = xs ↔ 0 ∉ xs ∧ ys.head? = some 0 := by
  induction xs with
  | nil =>
    cases ys with
    | nil => simp at h
    | cons y ys => by_cases hy : y = 0 <;> simp [hy]
  | cons x xs ih =>
    by_cases hx : x = 0
    · simp [hx]
    · have hmem : 0 ∈ xs ++ ys := by
        rcases List.mem_cons.mp h with heq | hmem
        · exact absurd heq.symm hx
        · exact hmem
      have hne : (0 : UInt8) ≠ x := fun heq => hx heq.symm
      simpa [hx, hne] using ih hmem

section Arguments
variable (mem : JniHeap)

theorem jintArrayToInts_len (sarr : Option (JArray JInt)) :
    (jintArrayToInts mem sarr).2 = BitVec.ofNat 32 (tidList sarr).length := by
  cases sarr <;> rfl

@[simp] theorem ints_jintArrayToInts (sarr : Option (JArray JInt)) :
    ints (jintArrayToInts mem sarr).1 (jintArrayToInts mem sarr).2 = tidList sarr := by
  cases sarr with
  | none => rfl
  | some sarr =>
    obtain ⟨xs, hxs⟩ := sarr
    have hlen : (BitVec.ofNat 32 xs.length).toInt.toNat = xs.length := by
      rw [BitVec.toInt_ofNat', Int.bmod_eq_of_le (by omega) (by omega)]
      rfl
    by_cases hnil : xs = []
    · simp [jintArrayToInts, ints, tidList, hnil]
    · have hwhole : (⟨xs, mem.behindInts⟩ : Delivery JInt).bytes.drop 0 = xs ++ [] :=
        (List.append_nil xs).symm
      have hread := Delivery.read_front ⟨xs, mem.behindInts⟩ hwhole
      simpa [jintArrayToInts, ints, tidList, hnil, hlen] using hread

theorem certTags_zip {xs ys : List StdString} (h : xs.length = ys.length) :
    (List.zipWith amc.CertTag.mk xs ys).map (·.manufacture) = xs ∧
      (List.zipWith amc.CertTag.mk xs ys).map (·.cert) = ys := by
  have hzip : List.zipWith amc.CertTag.mk xs ys = (xs.zip ys).map fun p => ⟨p.1, p.2⟩ := by
    rw [List.zip_eq_zipWith, List.map_zipWith]
  rw [hzip, List.map_map, List.map_map]
  exact ⟨List.map_fst_zip (Nat.le_of_eq h), List.map_snd_zip (Nat.le_of_eq h.symm)⟩

/-- Both lists come out of the certificate tags exactly when they are of one length. -/
theorem certTags_eq_iff (xs ys : List StdString) :
    let tags := if xs ≠ [] ∧ xs.length = ys.length then List.zipWith amc.CertTag.mk xs ys else []
    (tags.map (·.manufacture) = xs ∧ tags.map (·.cert) = ys) ↔ xs.length = ys.length := by
  intro tags
  by_cases hlen : xs.length = ys.length
  · refine iff_of_true ?_ hlen
    by_cases hnil : xs = []
    · have hys : ys = [] := List.length_eq_zero_iff.mp (by simpa [hnil] using hlen.symm)
      simp [tags, hnil, hys]
    · simpa only [tags, if_pos (And.intro hnil hlen)] using certTags_zip hlen
  · refine iff_of_false ?_ hlen
    rintro ⟨hxs, hys⟩
    simp only [tags, if_neg (fun h : xs ≠ [] ∧ _ => hlen h.2), List.map_nil] at hxs hys
    exact hlen (by rw [← hxs, ← hys])

/-- A C string that starts with the copy of an array ends with the array exactly when
the array holds no zero byte and one follows it. -/
theorem dataString_eq_iff {data : Option (JArray UInt8)} {s : StdString}
    (h : dataString (jbyteArrayToChars mem data) = some s) :
    s = byteList data ↔ Terminated mem data := by
  cases data with
  | none =>
    obtain rfl := Option.some.inj h
    exact iff_of_true rfl (.inl rfl)
  | some barr =>
    obtain ⟨xs, hxs⟩ := barr
    by_cases hnil : xs = []
    · subst hnil
      obtain rfl := Option.some.inj h
      exact iff_of_true rfl (.inl rfl)
    · have hbuf : jbyteArrayToChars mem (some ⟨xs, hxs⟩) = some (xs ++ mem.behindBytes) := by
        simp [jbyteArrayToChars, hnil]
      rw [hbuf, dataString, cString] at h
      split at h
      · rename_i hzero
        obtain rfl := Option.some.inj h
        have hdata : byteList (some ⟨xs, hxs⟩) = xs := rfl
        rw [Terminated, hdata, or_iff_right hnil]
        exact takeWhile_append_eq_iff hzero
      · cases h

end Arguments

section Calls
variable {env : ClientEnv} {srv : ServerEnv} {mem : JniHeap} {uid : JInt} {pack : List UInt8}

/-- The server calls the requested handler exactly when the arguments survive. -/
theorem requestFidelity_iff_faithful (hversion : env.HEADER_VERSION < HEADER_JSON_VERSION)
    (hpb : env.pb.Inverse) (hsame : srv.pb = env.pb) {c : NativeCall} {sent : SendResult}
    (hsent : native env mem c = some sent) (hpack : sent.packet = some pack) :
    (srv.receivePacket uid pack).call = some (requested env.getuid uid c) ↔ Faithful mem c := by
  replace hpb : srv.pb.Inverse := hsame ▸ hpb
  cases c with
  | checkPermission manufactures certs pid _ tid timestamp =>
    obtain rfl := Option.some.inj hsent
    obtain ⟨len, hrec⟩ := sendMessage_received srv uid hversion (by decide) hpack
    rw [hrec, ← hsame]
    simp +decide only [ServerEnv.dispatch, reqHeader, ↓reduceIte, ServerEnv.respond]
    rw [hpb.CheckPermission _, funext jstringToChars_eq]
    have hfuncid : (FUNC_CHECK_PERMISSION.setWidth 16).setWidth 32 = FUNC_CHECK_PERMISSION := by decide
    simpa [requested, Faithful, hfuncid] using certTags_eq_iff (manufactures.val.map modifiedUtf8)
      (certs.val.map modifiedUtf8)
  | requestCpuHighFreq scene action level timeoutms tid timestamp =>
    obtain rfl := Option.some.inj hsent
    obtain ⟨len, hrec⟩ := sendMessage_received srv uid hversion (by decide) hpack
    rw [hrec, ← hsame]
    simp +decide only [ServerEnv.dispatch, reqHeader, ↓reduceIte]
    rw [srv.handleParsed_call _ (hpb.RequestCPUHighFreq _) _]
    exact iff_of_true rfl trivial
  | cancelCpuHighFreq tid timestamp =>
    obtain rfl := Option.some.inj hsent
    obtain ⟨len, hrec⟩ := sendEmpty_received srv uid hversion (by decide) hpack
    rw [hrec]
    exact iff_of_true rfl trivial
  | requestGpuHighFreq scene action level timeoutms tid timestamp =>
    obtain rfl := Option.some.inj hsent
    obtain ⟨len, hrec⟩ := sendMessage_received srv uid hversion (by decide) hpack
    rw [hrec, ← hsame]
    simp +decide only [ServerEnv.dispatch, reqHeader, ↓reduceIte]
    rw [srv.handleParsed_call _ (hpb.RequestGPUHighFreq _) _]
    exact iff_of_true rfl trivial
  | cancelGpuHighFreq tid timestamp =>
    obtain rfl := Option.some.inj hsent
    obtain ⟨len, hrec⟩ := sendEmpty_received srv uid hversion (by decide) hpack
    rw [hrec]
    exact iff_of_true rfl trivial
  | requestCpuCoreForThread scene action bindtids timeoutms tid timestamp =>
    obtain rfl := Option.some.inj hsent
    obtain ⟨len, hrec⟩ := sendMessage_received srv uid hversion (by decide) hpack
    rw [hrec, ← hsame]
    simp +decide only [ServerEnv.dispatch, reqHeader, ↓reduceIte]
    rw [srv.handleParsed_call _ (hpb.RequestCPUCoreForThread _) _]
    simp only [ints_jintArrayToInts]
    exact iff_of_true rfl trivial
  | cancelCpuCoreForThread bindtids tid timestamp =>
    obtain rfl := Option.some.inj hsent
    dsimp only [ClientEnv.cancelCpuCoreForThread] at hpack
    split at hpack
    · obtain ⟨_, hpack⟩ := withEngine_packet hpack
      cases hpack
    · obtain ⟨len, hrec⟩ := sendMessage_received srv uid hversion (by decide) hpack
      rw [hrec, ← hsame]
      simp +decide only [ServerEnv.dispatch, reqHeader, ↓reduceIte]
      rw [srv.handleParsed_call _ (hpb.CancelCPUCoreForThread _) _]
      simp only [ints_jintArrayToInts]
      exact iff_of_true rfl trivial
  | requestHighIOFreq scene action level timeoutms tid timestamp =>
    obtain rfl := Option.some.inj hsent
    obtain ⟨len, hrec⟩ := sendMessage_received srv uid hversion (by decide) hpack
    rw [hrec, ← hsame]
    simp +decide only [ServerEnv.dispatch, reqHeader, ↓reduceIte]
    rw [srv.handleParsed_call _ (hpb.RequestHighIOFreq _) _]
    exact iff_of_true rfl trivial
  | cancelHighIOFreq tid timestamp =>
    obtain rfl := Option.some.inj hsent
    obtain ⟨len, hrec⟩ := sendEmpty_received srv uid hversion (by decide) hpack
    rw [hrec]
    exact iff_of_true rfl trivial
  | requestScreenResolution level uiName tid timestamp =>
    obtain rfl := Option.some.inj hsent
    obtain ⟨len, hrec⟩ := sendMessage_received srv uid hversion (by decide) hpack
    rw [hrec, ← hsame]
    simp +decide only [ServerEnv.dispatch, reqHeader, ↓reduceIte]
    rw [srv.handleParsed_call _ (hpb.RequestScreenResolution _) _]
    simp only [jstringToChars_eq]
    exact iff_of_true rfl trivial
  | resetScreenResolution tid timestamp =>
    obtain rfl := Option.some.inj hsent
    obtain ⟨len, hrec⟩ := sendEmpty_received srv uid hversion (by decide) hpack
    rw [hrec]
    exact iff_of_true rfl trivial
  | registerANRCallback tid timestamp =>
    obtain rfl := Option.some.inj hsent
    obtain ⟨len, hrec⟩ := sendMessage_received srv uid hversion (by decide) hpack
    rw [hrec, ← hsame]
    simp +decide only [ServerEnv.dispatch, reqHeader, ↓reduceIte, hpb.RegisterCallback _]
    exact iff_of_true rfl trivial
  | registerSystemEventCallback tid timestamp =>
    obtain rfl := Option.some.inj hsent
    obtain ⟨len, hrec⟩ := sendMessage_received srv uid hversion (by decide) hpack
    rw [hrec, ← hsame]
    simp +decide only [ServerEnv.dispatch, reqHeader, ↓reduceIte, hpb.RegisterCallback _]
    exact iff_of_true rfl trivial
  | registerBootPreloadResource files tid timestamp =>
    obtain rfl := Option.some.inj hsent
    obtain ⟨len, hrec⟩ := sendMessage_received srv uid hversion (by decide) hpack
    rw [hrec, ← hsame]
    simp +decide only [ServerEnv.dispatch, reqHeader, ↓reduceIte]
    rw [srv.handleParsed_call _ (hpb.RequestBootPreLoadResource _) _, funext jstringToChars_eq]
    exact iff_of_true rfl trivial
  | terminateApp tid timestamp =>
    obtain rfl := Option.some.inj hsent
    obtain ⟨len, hrec⟩ := sendEmpty_received srv uid hversion (by decide) hpack
    rw [hrec]
    exact iff_of_true rfl trivial
  | requestUnifyCpuIOThreadCoreGpu scene action cpulevel gpulevel iolevel bindtids timeout tid
      timestamp =>
    obtain rfl := Option.some.inj hsent
    obtain ⟨len, hrec⟩ := sendMessage_received srv uid hversion (by decide) hpack
    rw [hrec, ← hsame]
    simp +decide only [ServerEnv.dispatch, reqHeader, ↓reduceIte]
    rw [srv.handleParsed_call _ (hpb.RequestUnifyCPUIOThreadCore _) _]
    simp only [requested, Faithful, Option.getD_some, Option.some.injEq,
      HardCoderCall.requestUnifyCpuIOThreadCoreGpu.injEq, true_and, and_true]
    rw [← jintArrayToInts_len mem bindtids]
    constructor
    · exact fun h => h.2.symm
    · rintro rfl
      exact ⟨ints_jintArrayToInts mem bindtids, rfl⟩
  | cancelUnifyCpuIOThreadCoreGpu cancelcpu cancelgpu cancelio cancelthread bindtids tid
      timestamp =>
    obtain rfl := Option.some.inj hsent
    obtain ⟨len, hrec⟩ := sendMessage_received srv uid hversion (by decide) hpack
    rw [hrec, ← hsame]
    simp +decide only [ServerEnv.dispatch, reqHeader, ↓reduceIte]
    rw [srv.handleParsed_call _ (hpb.CancelUnifyCPUIOThreadCore _) _]
    simp only [ints_jintArrayToInts, Option.getD_some]
    exact iff_of_true rfl trivial
  | configure data tid timestamp =>
    obtain ⟨s, hs, rfl⟩ := Option.map_eq_some_iff.mp hsent
    obtain ⟨len, hrec⟩ := sendMessage_received srv uid hversion (by decide) hpack
    rw [hrec, ← hsame]
    simp +decide only [ServerEnv.dispatch, reqHeader, ↓reduceIte, hpb.Configuration _]
    simpa [ServerEnv.handle, ServerEnv.respond, requested, Faithful] using dataString_eq_iff mem hs
  | getParameters data tid timestamp =>
    obtain ⟨s, hs, rfl⟩ := Option.map_eq_some_iff.mp hsent
    obtain ⟨len, hrec⟩ := sendMessage_received srv uid hversion (by decide) hpack
    rw [hrec, ← hsame]
    simp +decide only [ServerEnv.dispatch, reqHeader, ↓reduceIte, hpb.GetParameters _]
    simpa [ServerEnv.handle, ServerEnv.respond, requested, Faithful] using dataString_eq_iff mem hs

end Calls

/-- A connected client of version 4. -/
def exampleClient : ClientEnv where
  HEADER_VERSION := 4
  heap := ⟨0, 0, 0⟩
  now := ⟨1, 0⟩
  pb := amcWire
  engine := some ⟨true⟩
  getuid := 10000
  getpid := 1

/-- A server of the same build. -/
def exampleServer : ServerEnv where
  HEADER_VERSION := 4
  heap := ⟨0, 0, 0⟩
  ts := ⟨1, 0⟩
  pb := amcWire
  inst := fun _ => 0

def exampleMemory : JniHeap := ⟨fun _ => 0, [0]⟩

/-- Scene 1, action 2, cpu level 1 and io level 3 for thread 7 and 1000 ms. -/
def exampleUnify (gpulevel : JInt) : NativeCall :=
  .requestUnifyCpuIOThreadCoreGpu 1 2 1 gpulevel 3 (some ⟨[7], by decide⟩) 1000 5 6

theorem requestFidelity_iff_faithful_oneThread : ∃ sent pack,
    native exampleClient exampleMemory (exampleUnify 1) = some sent ∧ sent.packet = some pack ∧
      ((exampleServer.receivePacket 10000 pack).call =
        some (requested exampleClient.getuid 10000 (exampleUnify 1)) ↔
          Faithful exampleMemory (exampleUnify 1)) :=
  ⟨_, _, rfl, rfl, requestFidelity_iff_faithful (by decide) amcWire_inverse rfl
    (c := exampleUnify 1) rfl rfl⟩

/-- With gpu level 0 the server is asked for gpu level 1, the length of the list, and
for no thread. -/
theorem requestFidelity_gpulevel_is_length : ∃ sent pack,
    native exampleClient exampleMemory (exampleUnify 0) = some sent ∧ sent.packet = some pack ∧
      (exampleServer.receivePacket 10000 pack).call =
        some (.requestUnifyCpuIOThreadCoreGpu 1 2 1 3 [] 1 1000 5 6) ∧
      (exampleServer.receivePacket 10000 pack).call ≠
        some (requested exampleClient.getuid 10000 (exampleUnify 0)) :=
  ⟨_, _, rfl, rfl, by decide +kernel, by decide +kernel⟩

end Hardcoder
