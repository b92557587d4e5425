import Hardcoder.ServerFraming

/-! The sender chooses the header layout by `HEADER_VERSION`; the server knows one
header size. From `HEADER_JSON_VERSION` on it reads the extension as the body. -/

namespace Hardcoder
open LittleEndian Stream
set_option autoImplicit false

namespace Request

/-- What `genReqPack` puts between header and body from `HEADER_JSON_VERSION` on. -/
def extension (r : Request) : List UInt8 :=
  word 4 (BitVec.ofNat 32 AMCReqHeaderV2.size) ++ (word 4 HEADER_BODYFORMAT_JSON ++
    (word 4 r.heap.data1 ++ (word 4 r.heap.data2 ++ word 4 r.heap.data3)))

theorem length_extension (r : Request) :
    r.extension.length = AMCReqHeaderV2.size - AMCReqHeader.size := by
  simp [extension, AMCReqHeaderV2.size, AMCReqHeader.size]

theorem genPack_json {v : BitVec 16} (hv : HEADER_JSON_VERSION ≤ v) (r : Request) :
    r.genPack v = ⟨(r.header v).requestid.toInt,
      some ((r.header v).encode ++ (r.extension ++ r.body)),
      r.dataLen + BitVec.ofNat 32 AMCReqHeaderV2.size⟩ := by
  have hf := r.funcid_le
  have hlo : HEADER_PROTOCAL_VERSION ≤ v := BitVec.le_trans (by decide) hv
  rw [genPack, genReqPack, if_neg r.null_empty, if_neg (by omega),
    if_neg (BitVec.not_lt.mpr hlo), if_pos hv, copied_body]
  simp [AMCReqHeaderV2.encode, extension, header]

theorem genPack_ret {v : BitVec 16} (hv : HEADER_PROTOCAL_VERSION ≤ v) (r : Request) :
    (r.genPack v).ret = (r.header v).requestid.toInt := by
  by_cases hjson : HEADER_JSON_VERSION ≤ v
  · rw [genPack_json hjson]
  · rw [genPack_eq hv (BitVec.not_le.mp hjson)]

end Request

/-- The event calls `processReceive` once, with the fields and the body of `r`,
and leaves nothing of the connection in the cache. -/
def DispatchesOnly (v : BitVec 16) (r : Request) (d : Delivery UInt8) : Prop :=
  ∃ fuel res f, recvEvent id fuel none d = some res ∧ res.frames = [f] ∧ res.cache = none ∧
    f.pHead.funcid.toNat = r.funcid.toNat ∧ f.pHead.requestid.toInt = (r.genPack v).ret ∧
    f.pHead.callertid = r.callertid ∧ f.pHead.timestamp = r.timestamp ∧
    f.payload.getD [] = r.body ∧ f.payloadLen.toNat = r.body.length

theorem recvEvent_protocal {v : BitVec 16} (hlo : HEADER_PROTOCAL_VERSION ≤ v)
    (hhi : v < HEADER_JSON_VERSION) (r : Request) (beyond : Nat → UInt8)
    (hlen : (r.pack v).length < 2 ^ 31) : DispatchesOnly v r ⟨r.pack v, beyond⟩ := by
  have hnil : ([] : List UInt8).length < AMCReqHeader.size := by decide
  have hrun := recvLoop_frames hlo hhi ⟨r.pack v, beyond⟩ hlen [r] hnil hnil (by simp)
  have hf := r.funcid_le
  refine ⟨2, _, r.frame v, hrun, rfl, rfl, ?_, (r.genPack_ret hlo).symm, rfl, rfl, ?_,
    r.toNat_dataLen⟩
  · simp only [Request.frame, Request.header, reqHeader, BitVec.toNat_setWidth]
    omega
  · by_cases hnil : r.body = [] <;> simp [Request.frame, hnil]

/-- What the server takes for the body: as many bytes from the extension on. -/
def misread (r : Request) : List UInt8 := (r.extension ++ r.body).take r.body.length

def leftOver (r : Request) : List UInt8 := (r.extension ++ r.body).drop r.body.length

theorem length_misread (r : Request) : (misread r).length = r.body.length := by
  simp only [misread, List.length_take, List.length_append]
  omega

theorem length_leftOver (r : Request) :
    (leftOver r).length = AMCReqHeaderV2.size - AMCReqHeader.size := by
  have hext := r.length_extension
  simp only [leftOver, List.length_drop, List.length_append]
  omega

theorem pack_json {v : BitVec 16} (hv : HEADER_JSON_VERSION ≤ v) (r : Request) :
    r.pack v = (r.header v).encode ++ (misread r ++ leftOver r) := by
  rw [Request.pack, Request.genPack_json hv, Option.getD_some, misread, leftOver,
    List.take_append_drop]

/-- Twenty bytes of a version 2 packet always stay behind, as a begun header. -/
theorem recvEvent_json {v : BitVec 16} (hv : HEADER_JSON_VERSION ≤ v) (r : Request)
    (beyond : Nat → UInt8) (hlen : (r.pack v).length < 2 ^ 31) :
    recvEvent id 2 none ⟨r.pack v, beyond⟩ =
      some ⟨0, some ⟨leftOver r, none⟩, [⟨r.header v, (r.header v).encode,
        if misread r = [] then none else some (misread r), r.dataLen⟩]⟩ := by
  have hmis := length_misread r
  have hleft := length_leftOver r
  have henc := (r.header v).length_encode
  have hpack : (⟨r.pack v, beyond⟩ : Delivery UInt8).bytes.drop 0 =
      (r.header v).encode ++ (misread r ++ leftOver r) := pack_json hv r
  have hsum : (r.pack v).length = AMCReqHeader.size + (r.body.length + (leftOver r).length) := by
    rw [pack_json hv, List.length_append, List.length_append, henc, hmis]
  have hdrop := drop_add_of_drop (drop_add_of_drop hpack)
  have htotal : (r.pack v).length =
      (r.header v).encode.length + ((misread r).length + (leftOver r).length) := by
    rw [hsum, henc, hmis]
  have hfirst := recvPass_whole (r.header v) (r.header_begin v) ⟨r.pack v, beyond⟩
    (List.nil_append _) hpack (by rw [hmis]; exact r.toNat_dataLen)
    (by rw [hmis]; exact r.data_lt) htotal
  rw [Nat.zero_add, henc, hmis] at hdrop hfirst
  have hshort : ([] ++ (⟨r.pack v, beyond⟩ : Delivery UInt8).bytes.drop
      (AMCReqHeader.size + r.body.length)).length < AMCReqHeader.size := by
    rw [hdrop, List.nil_append, hleft]
    decide
  have hsecond := @recvPass_part _ id ⟨r.pack v, beyond⟩ _ _ [] hshort rfl
  rw [hdrop, List.nil_append] at hsecond
  have hleft₁ : readLeft (r.pack v).length 0 = (r.pack v).length := readLeft_eq (Nat.zero_le _) hlen
  have hleft₂ : readLeft (r.pack v).length (AMCReqHeader.size + r.body.length) =
      (leftOver r).length := by
    rw [readLeft_eq (by omega) hlen]
    omega
  have hne₁ : (r.pack v).length ≠ 0 := by
    rw [hsum, AMCReqHeader.size]
    omega
  have hne₂ : (leftOver r).length ≠ 0 := by
    rw [hleft]
    decide
  simp only [recvEvent, recvLoop, hleft₁, hleft₂, if_neg hne₁, if_neg hne₂, Option.getD_none,
    RecvCache.new, hfirst, hsecond, Option.map_some]
  rfl

theorem not_dispatchesOnly_json {v : BitVec 16} (hv : HEADER_JSON_VERSION ≤ v) (r : Request)
    (beyond : Nat → UInt8) (hlen : (r.pack v).length < 2 ^ 31) :
    ¬ DispatchesOnly v r ⟨r.pack v, beyond⟩ := by
  rintro ⟨fuel, res, f, hres, -, hcache, -⟩
  have hone := recvLoop_mono _ (Nat.le_add_right fuel 2) hres
  have htwo := recvLoop_mono _ (Nat.le_add_left 2 fuel) (recvEvent_json hv r beyond hlen)
  rw [Option.some.inj (hone.symm.trans htwo)] at hcache
  exact absurd hcache (by simp)

/-- One packet in one chunk on a fresh connection is dispatched as it was built, with
nothing left over, just for the versions with a version 1 header. -/
theorem packRoundTrip_iff_version {v : BitVec 16} (hv : HEADER_PROTOCAL_VERSION ≤ v) (r : Request)
    (hlen : (r.pack v).length < 2 ^ 31) :
    (∀ beyond, DispatchesOnly v r ⟨r.pack v, beyond⟩) ↔ v < HEADER_JSON_VERSION := by
  constructor
  · intro h
    by_contra hjson
    exact not_dispatchesOnly_json (BitVec.not_lt.mp hjson) r (fun _ => 0) hlen (h fun _ => 0)
  · intro hhi beyond
    exact recvEvent_protocal hv hhi r beyond hlen

theorem packRoundTrip_iff_version_four :
    (∀ beyond, DispatchesOnly 4 oneByteRequest ⟨oneByteRequest.pack 4, beyond⟩) ↔
      (4 : BitVec 16) < HEADER_JSON_VERSION :=
  packRoundTrip_iff_version (by decide) oneByteRequest (by decide)

/-- Version 16: the byte handed on is the first of `headerlen`, and twenty bytes wait
for the rest of a header. -/
theorem packRoundTrip_sixteen :
    recvEvent id 2 none ⟨oneByteRequest.pack HEADER_JSON_VERSION, fun _ => 0⟩ =
      some ⟨0, some ⟨[0, 0, 0, 3, 0, 0, 0, 0, 0, 0, 0, 0, 0, 0, 0, 0, 0, 0, 0, 7], none⟩,
        [⟨oneByteRequest.header HEADER_JSON_VERSION,
          (oneByteRequest.header HEADER_JSON_VERSION).encode, some [52], 1⟩]⟩ ∧
    ¬ DispatchesOnly HEADER_JSON_VERSION oneByteRequest
      ⟨oneByteRequest.pack HEADER_JSON_VERSION, fun _ => 0⟩ :=
  ⟨by decide, not_dispatchesOnly_json (by decide) oneByteRequest (fun _ => 0) (by decide)⟩

end Hardcoder
