import Hardcoder.ServerResponses

/-! The two decoders of a request: `UdpServer::recvEvent` takes an `EVENT_DATA` message
for a whole packet, `LocalSocketServer::recvEvent` reads packets off a stream. -/

namespace Hardcoder
open LittleEndian Stream
set_option autoImplicit false

/-- The arguments of the `processReceive` call `UdpServer::recvEvent` makes for every
message: `len - sizeof(AMCReqHeader)` is taken modulo 2^32. -/
def UdpServer.recvEvent (d : Delivery UInt8) : List (ReqFrame UInt8) :=
  let headerBuf := d.read 0 AMCReqHeader.size
  let payloadLen := BitVec.ofInt 32 (d.bytes.length - AMCReqHeader.size)
  [⟨.decode headerBuf, headerBuf, some (d.read AMCReqHeader.size payloadLen.toNat), payloadLen⟩]

/-- `b` is one request: a header with its marker and as many bytes as it announces. -/
structure WholeRequest (b : List UInt8) : Prop where
  header : AMCReqHeader.size ≤ b.length
  begin_eq : (AMCReqHeader.decode (b.take AMCReqHeader.size)).begin = HEADER_BEGIN
  bodylen_eq : (AMCReqHeader.decode (b.take AMCReqHeader.size)).bodylen.toNat =
    b.length - AMCReqHeader.size

/-- On a fresh connection the chunk is dispatched as the one request `f`, with nothing left. -/
def LocalSocketServer.Takes (d : Delivery UInt8) (f : ReqFrame UInt8) : Prop :=
  ∃ fuel, recvEvent id fuel none d = some ⟨0, none, [f]⟩

/-- The handlers of the two calls see the same request. -/
structure ReqFrame.Same (f g : ReqFrame UInt8) : Prop where
  pHead : f.pHead = g.pHead
  payloadLen : f.payloadLen = g.payloadLen
  payload : copied f.payload f.payloadLen = copied g.payload g.payloadLen

/-- `UdpServer` makes a call for the bytes just when `LocalSocketServer` takes them as
one request, and then it is the same call. -/
structure TransportsAgree (b : List UInt8) (beyondUdp beyondLocal : Nat → UInt8) : Prop where
  calls : UdpServer.recvEvent ⟨b, beyondUdp⟩ ≠ [] ↔
    ∃ f, LocalSocketServer.Takes ⟨b, beyondLocal⟩ f
  same : ∀ f, LocalSocketServer.Takes ⟨b, beyondLocal⟩ f →
    ∀ g ∈ UdpServer.recvEvent ⟨b, beyondUdp⟩, g.Same f

section Takes
variable {b : List UInt8} {beyond : Nat → UInt8}

theorem recvLoop_end {d : Delivery UInt8} {fuel pos : Nat}
    (h : recvLoop id d fuel pos none = some ⟨0, none, []⟩) : readLeft d.bytes.length pos = 0 := by
  cases fuel with
  | zero => cases h
  | succ fuel =>
    simp only [recvLoop] at h
    by_contra hleft
    rw [if_neg hleft] at h
    split at h
    · cases h
    · cases h
    · cases h
    · obtain ⟨s, -, hs⟩ := Option.map_eq_some_iff.mp h
      simp at hs

theorem bodyPass_dispatch {d : Delivery UInt8} {left pos pos' : Nat} {h : AMCReqHeader}
    {head : List UInt8} {f : ReqFrame UInt8}
    (hpass : bodyPass d left pos h head = .dispatch pos' f) :
    h.bodylen.toNat ≤ left ∧ pos' = pos + h.bodylen.toNat := by
  unfold bodyPass at hpass
  dsimp only at hpass
  split at hpass
  · split at hpass
    · cases hpass
    · split at hpass
      · cases hpass
      · cases hpass
        omega
  · cases hpass
    omega

theorem take_append (b : List UInt8) :
    b.drop 0 = b.take AMCReqHeader.size ++ b.drop AMCReqHeader.size := by
  rw [List.drop_zero, List.take_append_drop]

theorem recvPass_first (hsize : AMCReqHeader.size ≤ b.length)
    (hbegin : (AMCReqHeader.decode (b.take AMCReqHeader.size)).begin = HEADER_BEGIN) :
    recvPass id ⟨b, beyond⟩ b.length 0 .new =
      bodyPass ⟨b, beyond⟩ b.length AMCReqHeader.size
        (.decode (b.take AMCReqHeader.size)) (b.take AMCReqHeader.size) := by
  have hlen : (b.take AMCReqHeader.size).length = AMCReqHeader.size := List.length_take_of_le hsize
  have hpass := @recvPass_header _ id ⟨b, beyond⟩ 0 b.length _ _ _ (b.drop AMCReqHeader.size)
    (.decode (b.take AMCReqHeader.size)) (List.nil_append _) hlen (by rw [List.map_id]) hbegin
    (take_append b) (by omega)
  rwa [hlen, Nat.zero_add] at hpass

theorem wholeRequest_of_takes (hlen : b.length < 2 ^ 31) {f : ReqFrame UInt8}
    (h : LocalSocketServer.Takes ⟨b, beyond⟩ f) : WholeRequest b := by
  obtain ⟨fuel, h⟩ := h
  cases fuel with
  | zero => cases h
  | succ fuel =>
    have hleft : readLeft b.length 0 = b.length := readLeft_eq (Nat.zero_le _) hlen
    simp only [recvEvent, recvLoop, hleft, Option.getD_none] at h
    by_cases hnil : b.length = 0
    · rw [if_pos hnil] at h
      cases h
    rw [if_neg hnil] at h
    by_cases hsize : AMCReqHeader.size ≤ b.length
    · by_cases hbegin : (AMCReqHeader.decode (b.take AMCReqHeader.size)).begin = HEADER_BEGIN
      · rw [recvPass_first hsize hbegin] at h
        split at h
        · cases h
        · cases h
        · cases h
        · rename_i pos' g hpass
          obtain ⟨s, hs, hres⟩ := Option.map_eq_some_iff.mp h
          obtain ⟨hbody, rfl⟩ := bodyPass_dispatch hpass
          obtain ⟨ret, cache, frames⟩ := s
          simp only [RecvResult.mk.injEq, List.cons.injEq] at hres
          obtain ⟨rfl, rfl, -, rfl⟩ := hres
          -- nothing comes after the request, so it ends where the chunk ends
          have hend : readLeft b.length (AMCReqHeader.size +
              (AMCReqHeader.decode (b.take AMCReqHeader.size)).bodylen.toNat) = 0 := recvLoop_end hs
          unfold readLeft at hend
          exact ⟨hsize, hbegin, by omega⟩
      · have hrefuse : recvPass id ⟨b, beyond⟩ b.length 0 .new = .refuse :=
          recvPass_refuse ⟨b, beyond⟩ (List.nil_append _) (List.length_take_of_le hsize)
            (by rwa [List.map_id]) (take_append b) (by rw [List.length_take]; omega)
        rw [hrefuse] at h
        cases h
    · have hshort : ([] ++ (⟨b, beyond⟩ : Delivery UInt8).bytes.drop 0).length <
          AMCReqHeader.size := Nat.not_le.mp hsize
      have hwait : recvPass id ⟨b, beyond⟩ b.length 0 .new = .wait ⟨[] ++ b.drop 0, none⟩ :=
        recvPass_part ⟨b, beyond⟩ hshort rfl
      rw [hwait] at h
      cases h

theorem takes_of_wholeRequest (hlen : b.length < 2 ^ 31) (h : WholeRequest b) :
    LocalSocketServer.Takes ⟨b, beyond⟩ ⟨.decode (b.take AMCReqHeader.size),
      b.take AMCReqHeader.size,
      if b.drop AMCReqHeader.size = [] then none else some (b.drop AMCReqHeader.size),
      (AMCReqHeader.decode (b.take AMCReqHeader.size)).bodylen⟩ := by
  have hsize := h.header
  have hbody : (b.drop AMCReqHeader.size).length = b.length - AMCReqHeader.size :=
    List.length_drop
  have hleft : readLeft b.length 0 = b.length := readLeft_eq (Nat.zero_le _) hlen
  have hend : readLeft b.length (AMCReqHeader.size + (b.drop AMCReqHeader.size).length) = 0 := by
    rw [readLeft_eq (by omega) hlen]
    omega
  have hne : b.length ≠ 0 := by
    have : 0 < AMCReqHeader.size := by decide
    omega
  have hpass := @bodyPass_whole _ ⟨b, beyond⟩ AMCReqHeader.size b.length (b.take AMCReqHeader.size)
    [] (.decode (b.take AMCReqHeader.size)) _ (b.drop AMCReqHeader.size) (List.append_nil _).symm
    (by rw [h.bodylen_eq, hbody]) (by omega) (by omega)
  refine ⟨2, ?_⟩
  simp only [recvEvent, recvLoop, hleft, if_neg hne, Option.getD_none,
    recvPass_first hsize h.begin_eq, hpass, hend, if_true, Option.map_some]

theorem takes_unique {d : Delivery UInt8} {f g : ReqFrame UInt8}
    (hf : LocalSocketServer.Takes d f) (hg : LocalSocketServer.Takes d g) : f = g := by
  obtain ⟨n, hf⟩ := hf
  obtain ⟨m, hg⟩ := hg
  have hone := recvLoop_mono _ (Nat.le_add_right n m) hf
  have htwo := recvLoop_mono _ (Nat.le_add_left m n) hg
  have hres := Option.some.inj (hone.symm.trans htwo)
  simpa using hres

theorem recvEvent_same (hlen : b.length < 2 ^ 31) (h : WholeRequest b) {g : ReqFrame UInt8}
    (hg : g ∈ UdpServer.recvEvent ⟨b, beyond⟩) :
    g.Same ⟨.decode (b.take AMCReqHeader.size), b.take AMCReqHeader.size,
      if b.drop AMCReqHeader.size = [] then none else some (b.drop AMCReqHeader.size),
      (AMCReqHeader.decode (b.take AMCReqHeader.size)).bodylen⟩ := by
  have hsize := h.header
  have hread : (⟨b, beyond⟩ : Delivery UInt8).read 0 AMCReqHeader.size =
      b.take AMCReqHeader.size := by
    rw [Delivery.read_within _ (by simpa using hsize), List.drop_zero]
  have hpay : BitVec.ofInt 32 (b.length - AMCReqHeader.size) =
      (AMCReqHeader.decode (b.take AMCReqHeader.size)).bodylen := by
    refine BitVec.eq_of_toNat_eq ?_
    rw [h.bodylen_eq, BitVec.toNat_ofInt]
    omega
  have hdrop : (⟨b, beyond⟩ : Delivery UInt8).read AMCReqHeader.size
      (AMCReqHeader.decode (b.take AMCReqHeader.size)).bodylen.toNat =
        b.drop AMCReqHeader.size := by
    rw [h.bodylen_eq, Delivery.read_within _ (by simp only; omega)]
    exact List.take_of_length_le (by rw [List.length_drop])
  obtain rfl := List.mem_singleton.mp hg
  refine ⟨congrArg AMCReqHeader.decode hread, hpay, ?_⟩
  simp only [hpay, hdrop]
  by_cases hnil : b.drop AMCReqHeader.size = [] <;> simp [copied, hnil]

/-- The two servers agree on a byte string just when it is one whole request. -/
theorem transportsAgree_iff_wholeRequest (hlen : b.length < 2 ^ 31)
    (beyondUdp beyondLocal : Nat → UInt8) :
    TransportsAgree b beyondUdp beyondLocal ↔ WholeRequest b := by
  constructor
  · intro h
    obtain ⟨f, hf⟩ := h.calls.mp (List.cons_ne_nil _ _)
    exact wholeRequest_of_takes hlen hf
  · intro h
    have htakes := @takes_of_wholeRequest b beyondLocal hlen h
    refine ⟨⟨fun _ => ⟨_, htakes⟩, fun _ => List.cons_ne_nil _ _⟩, fun f hf g hg => ?_⟩
    rw [takes_unique hf htakes]
    exact recvEvent_same hlen h hg

end Takes

theorem transportsAgree_iff_wholeRequest_cancel :
    TransportsAgree (ServerEnv.cancelRequest 1).encode (fun _ => 0) (fun _ => 0) ↔
      WholeRequest (ServerEnv.cancelRequest 1).encode :=
  transportsAgree_iff_wholeRequest (by decide) _ _

/-- A message of one byte: `UdpServer` makes a call with a length of almost 2^32, where
`LocalSocketServer` waits for the rest of the header. -/
theorem transports_oneByte :
    (UdpServer.recvEvent ⟨[0x52], fun _ => 0⟩).map (·.payloadLen) = [BitVec.ofNat 32 (2 ^ 32 - 31)] ∧
    recvEvent id 2 none ⟨[0x52], fun _ => 0⟩ = some ⟨0, some ⟨[0x52], none⟩, []⟩ ∧
    ¬ TransportsAgree [0x52] (fun _ => 0) (fun _ => 0) := by
  refine ⟨rfl, by decide, fun h => ?_⟩
  obtain ⟨f, hf⟩ := h.calls.mp (List.cons_ne_nil _ _)
  exact absurd (wholeRequest_of_takes (by decide) hf).header (by decide)

end Hardcoder
