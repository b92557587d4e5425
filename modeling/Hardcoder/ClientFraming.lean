import Mathlib.Data.List.Forall2
import Hardcoder.ClientReceive

/-! Response packets on a stream: what `recvEvent` makes of the concatenated output
of `genRespPack`, of either header layout, cut into chunks anywhere. -/

namespace Hardcoder
open LittleEndian Stream
set_option autoImplicit false

/-- The arguments of a `genRespPack` call it accepts. -/
structure Response where
  funcid : BitVec 32
  retCode : BitVec 32
  requestId : BitVec 64
  data : Option (List UInt8)
  ts : TimeSpec
  funcid_le : funcid.toNat ≤ 65535
  data_lt : (data.getD []).length < 2 ^ 31

/-- A response and the heap block it was built in. -/
abbrev Sent := Response × Uninit

namespace Response

def body (r : Response) : List UInt8 := r.data.getD []

def dataLen (r : Response) : BitVec 32 := BitVec.ofNat 32 r.body.length

def header (v : BitVec 16) (r : Response) : AMCRespHeader :=
  respHeader v r.ts r.funcid r.retCode r.requestId r.dataLen

def pack (v : BitVec 16) (p : Sent) : List UInt8 :=
  (genRespPack v p.2 p.1.ts p.1.funcid p.1.retCode p.1.requestId p.1.data p.1.dataLen).outPack.getD []

/-- What `genRespPack` puts between header and body. -/
def extension (v : BitVec 16) (heap : Uninit) : List UInt8 :=
  if HEADER_JSON_VERSION ≤ v then
    word 4 (BitVec.ofNat 32 AMCRespHeaderV2.size) ++ (word 4 HEADER_BODYFORMAT_JSON ++
      (word 4 heap.data1 ++ (word 4 heap.data2 ++ word 4 heap.data3)))
  else []

/-- The body format a client finds in a packet of version `v`, or assumes. -/
def bodyformat (v : BitVec 16) : BitVec 32 :=
  if HEADER_JSON_VERSION ≤ v then HEADER_BODYFORMAT_JSON else HEADER_BODYFORMAT_PROTO

def size (v : BitVec 16) (r : Response) : Nat :=
  (if HEADER_JSON_VERSION ≤ v then AMCRespHeaderV2.size else AMCRespHeader.size) + r.body.length

theorem toNat_dataLen (r : Response) : r.dataLen.toNat = r.body.length := by
  have h := r.data_lt
  simp only [dataLen, BitVec.toNat_ofNat, body]
  omega

theorem copied_body (r : Response) : copied r.data r.dataLen = r.body := by
  rw [copied, toNat_dataLen]
  exact List.take_length

@[simp] theorem header_begin (v : BitVec 16) (r : Response) :
    (r.header v).begin = HEADER_BEGIN := rfl

@[simp] theorem header_version (v : BitVec 16) (r : Response) : (r.header v).version = v := rfl

theorem header_bodylen (v : BitVec 16) (r : Response) :
    (r.header v).bodylen.toNat = r.body.length := r.toNat_dataLen

theorem pack_eq {v : BitVec 16} (hv : HEADER_PROTOCAL_VERSION ≤ v) (p : Sent) :
    pack v p = (p.1.header v).encode ++ (extension v p.2 ++ p.1.body) := by
  have hf := p.1.funcid_le
  rw [pack, genRespPack, if_neg (by omega), if_neg (BitVec.not_lt.mpr hv), copied_body]
  by_cases hjson : HEADER_JSON_VERSION ≤ v
  · simp [if_pos hjson, extension, AMCRespHeaderV2.encode, respHeaderV2, header]
  · simp [if_neg hjson, extension, header]

theorem length_pack {v : BitVec 16} (hv : HEADER_PROTOCAL_VERSION ≤ v) (p : Sent) :
    (pack v p).length = p.1.size v := by
  rw [pack_eq hv, size, extension]
  split
  · simp only [List.length_append, AMCRespHeader.length_encode, length_word, AMCRespHeader.size,
      AMCRespHeaderV2.size]
    omega
  · simp

theorem size_le (v : BitVec 16) (r : Response) : AMCRespHeader.size ≤ r.size v := by
  unfold size AMCRespHeader.size AMCRespHeaderV2.size
  split <;> omega

end Response

/-- The call a response is to become. -/
structure Called (r : Response) (call : LocalsocketClient.Callback) : Prop where
  funcid : call.funcid.toNat = r.funcid.toNat
  requestid : call.requestid = r.requestId
  retCode : call.retCode = r.retCode
  timestamp : call.timestamp = r.ts.nanos
  data : call.data.getD [] = r.body
  len : call.len = r.body.length

/-- Cuts the parser does not survive. -/
def badCut (v : BitVec 16) (r : Response) (later : List Response) (n : Nat) : Prop :=
  if HEADER_JSON_VERSION ≤ v then
    if r.body = [] then AMCRespHeader.size ≤ n ∧ later ≠ [] else AMCRespHeader.size < n
  else AMCRespHeader.size ≤ n

namespace LocalsocketClient

theorem called_of_header {v : BitVec 16} {r : Response} {bodyformat : BitVec 32}
    {data : Option (List UInt8)} (hdata : data.getD [] = r.body) :
    Called r ⟨(r.header v).funcid, (r.header v).requestid, bodyformat, (r.header v).timestamp,
      (r.header v).retCode, data, (r.header v).bodylen.toNat⟩ := by
  have hf := r.funcid_le
  refine ⟨?_, rfl, rfl, rfl, hdata, r.toNat_dataLen⟩
  simp only [Response.header, respHeader, BitVec.toNat_setWidth]
  omega

theorem extensionOf_pack (v : BitVec 16) (p : Sent) (rest : List UInt8) :
    extensionOf (p.1.header v) (Response.extension v p.2 ++ rest) = Response.extension v p.2 := by
  unfold extensionOf Response.extension
  rw [Response.header_version]
  split
  · rw [List.take_left']
    simp [AMCRespHeader.size, AMCRespHeaderV2.size]
  · rfl

theorem bodyformatOf_pack {v : BitVec 16} {p : Sent} {st : RecvState}
    (h : Holds st ((p.1.header v).encode ++ Response.extension v p.2)) :
    bodyformatOf (p.1.header v) st = Response.bodyformat v := by
  unfold bodyformatOf Response.bodyformat
  rw [Response.header_version]
  by_cases hjson : HEADER_JSON_VERSION ≤ v
  · obtain ⟨junk, hbuf, -⟩ := h.buf
    have hpack : (p.1.header v).encode ++ Response.extension v p.2 =
        (respHeaderV2 v p.2 p.1.ts p.1.funcid p.1.retCode p.1.requestId p.1.dataLen).encode := by
      simp [Response.extension, if_pos hjson, AMCRespHeaderV2.encode, respHeaderV2, Response.header]
    rw [if_pos hjson, if_pos hjson, hbuf, hpack, AMCRespHeaderV2.decode_encode_append]
    rfl
  · rw [if_neg hjson, if_neg hjson]

theorem extensionOf_part {v : BitVec 16} {p : Sent} {rest lost : List UInt8} (hnil : p.1.body = [])
    (hrest : rest ++ lost = Response.extension v p.2 ++ p.1.body) :
    extensionOf (p.1.header v) rest = rest := by
  rw [hnil, List.append_nil] at hrest
  have hlen := congrArg List.length hrest
  rw [List.length_append] at hlen
  unfold extensionOf Response.extension at *
  rw [Response.header_version]
  split
  · rw [if_pos ‹_›] at hlen
    rw [List.take_of_length_le]
    simp only [List.length_append, length_word, AMCRespHeader.size, AMCRespHeaderV2.size] at hlen ⊢
    omega
  · rw [if_neg ‹_›] at hrest
    exact (List.append_eq_nil_iff.mp hrest).1.symm

section Frames
variable {v : BitVec 16} (hv : HEADER_PROTOCAL_VERSION ≤ v)
include hv

theorem pack_split {p : Sent} {part t rest : List UInt8} (hpart : part.length ≤ AMCRespHeader.size)
    (heq : part ++ t = Response.pack v p ++ rest) :
    ∃ tail, part ++ tail = (p.1.header v).encode ∧
      t = tail ++ (Response.extension v p.2 ++ (p.1.body ++ rest)) := by
  rw [Response.pack_eq hv, List.append_assoc, List.append_assoc] at heq
  have hle : part.length ≤ (p.1.header v).encode.length := by
    rwa [AMCRespHeader.length_encode]
  obtain ⟨tail, htail⟩ : part <+: (p.1.header v).encode :=
    List.prefix_of_prefix_length_le ⟨t, heq⟩ (List.prefix_append _ _) hle
  refine ⟨tail, htail, ?_⟩
  rw [← htail, List.append_assoc] at heq
  exact List.append_cancel_left heq

theorem recvPass_pack {st : RecvState} {part xs : List UInt8} (h : Holds st part)
    (hpart : part.length ≤ AMCRespHeader.size) {c : List UInt8} {pos : Nat} (p : Sent)
    (hpos : pos ≤ c.length) (heq : part ++ c.drop pos = Response.pack v p ++ xs) :
    ∃ pos' st' call, (∀ beyond, recvPass ⟨c, beyond⟩ pos st = .callback pos' st' call) ∧
      Called p.1 call ∧ call.bodyformat = Response.bodyformat v ∧ Holds st' [] ∧
      pos' ≤ c.length ∧ c.drop pos' = xs := by
  obtain ⟨tail, htail, ht⟩ := pack_split hv hpart heq
  have hdec : AMCRespHeader.decode (p.1.header v).encode = p.1.header v :=
    (p.1.header v).decode_encode
  have hbody := p.1.header_bodylen v
  have hsum := congrArg List.length ht
  simp only [List.length_append, List.length_drop] at hsum
  have haccept (beyond : Nat → UInt8) := recvPass_accept h htail (p.1.header v).length_encode
    ⟨c, beyond⟩ ht (by rw [hdec]; rfl) rfl rfl
  rw [hdec, extensionOf_pack] at haccept
  have hst := (haccept fun _ => 0).1
  generalize (st.fillHeader tail).fillHeader (Response.extension v p.2) = st' at haccept hst
  have hdrop : c.drop (pos + tail.length + (Response.extension v p.2).length) = p.1.body ++ xs :=
    drop_add_of_drop (drop_add_of_drop ht)
  refine ⟨pos + tail.length + (Response.extension v p.2).length + p.1.body.length, st'.restart,
    ⟨(p.1.header v).funcid, (p.1.header v).requestid, bodyformatOf (p.1.header v) st',
      (p.1.header v).timestamp, (p.1.header v).retCode,
      if (p.1.header v).bodylen.toNat = 0 then st'.respPayload else some p.1.body,
      (p.1.header v).bodylen.toNat⟩,
    fun beyond => ?_, called_of_header ?_, bodyformatOf_pack hst, hst.restart, by omega,
    drop_add_of_drop hdrop⟩
  · have hread : (⟨c, beyond⟩ : Delivery UInt8).read
        (pos + tail.length + (Response.extension v p.2).length) p.1.body.length = p.1.body :=
      Delivery.read_front _ hdrop
    have hle : (p.1.header v).bodylen.toNat ≤
        staleLeft (p.1.header v) tail (Response.extension v p.2 ++ (p.1.body ++ xs)) := by
      rw [hbody, staleLeft]
      simp only [List.length_append]
      split <;> omega
    have hdata : (if (p.1.header v).bodylen.toNat = 0 then st'.respPayload else some p.1.body) =
        if (p.1.header v).bodylen.toNat = 0 then st'.respPayload
        else some (Delivery.read ⟨c, beyond⟩
          (pos + tail.length + (Response.extension v p.2).length) (p.1.header v).bodylen.toNat) := by
      rw [hbody, hread]
    obtain ⟨-, hfill⟩ := fillPayload_whole hst ⟨c, beyond⟩ (p.1.header v)
      (bodyformatOf (p.1.header v) st') (by rw [hbody]; exact p.1.data_lt) hle hdata
    rw [(haccept beyond).2, hfill, hbody]
  · split
    · rw [hst.payload, List.length_eq_zero_iff.mp (hbody.symm.trans ‹_›)]
    · rfl

theorem recvPass_cut {st : RecvState} {part rest lost : List UInt8} (h : Holds st part)
    (hpart : part.length ≤ AMCRespHeader.size) {c : List UInt8} {pos : Nat} (p : Sent)
    (heq : part ++ c.drop pos = (p.1.header v).encode ++ rest)
    (hrest : rest ++ lost = Response.extension v p.2 ++ p.1.body) :
    ∃ tail st', c.drop pos = tail ++ rest ∧ part ++ tail = (p.1.header v).encode ∧
      Holds st' ((p.1.header v).encode ++ extensionOf (p.1.header v) rest) ∧
      ∀ beyond, recvPass ⟨c, beyond⟩ pos st =
        fillPayload ⟨c, beyond⟩ (staleLeft (p.1.header v) tail rest)
          (pos + tail.length + (extensionOf (p.1.header v) rest).length) (p.1.header v)
          (bodyformatOf (p.1.header v) st') st' := by
  have hpack : part ++ (c.drop pos ++ lost) = Response.pack v p ++ [] := by
    rw [← List.append_assoc, heq, List.append_assoc, hrest, Response.pack_eq hv, List.append_nil]
  obtain ⟨tail, htail, -⟩ := pack_split hv hpart hpack
  have ht : c.drop pos = tail ++ rest := by
    rw [← htail, List.append_assoc] at heq
    exact List.append_cancel_left heq
  have hdec : AMCRespHeader.decode (p.1.header v).encode = p.1.header v :=
    (p.1.header v).decode_encode
  have haccept (beyond : Nat → UInt8) := recvPass_accept h htail (p.1.header v).length_encode
    ⟨c, beyond⟩ ht (by rw [hdec]; rfl) rfl rfl
  rw [hdec] at haccept
  exact ⟨tail, _, ht, htail, (haccept fun _ => 0).1, fun beyond => (haccept beyond).2⟩

/-- Where the extension has not arrived whole, an empty body is called back at once:
the rest of the extension is not waited for. -/
theorem recvPass_early {st : RecvState} {part rest lost : List UInt8} (h : Holds st part)
    (hpart : part.length ≤ AMCRespHeader.size) {c : List UInt8} {pos : Nat}
    (hpos : pos ≤ c.length) (p : Sent) (hnil : p.1.body = [])
    (heq : part ++ c.drop pos = (p.1.header v).encode ++ rest)
    (hrest : rest ++ lost = Response.extension v p.2 ++ p.1.body) :
    ∃ st' call, (∀ beyond, recvPass ⟨c, beyond⟩ pos st = .callback c.length st' call) ∧
      Called p.1 call ∧ Holds st' [] := by
  obtain ⟨tail, st', ht, -, hst, hpass⟩ := recvPass_cut hv h hpart p heq hrest
  have hbody := p.1.header_bodylen v
  rw [hnil, List.length_nil] at hbody
  have hend : pos + tail.length + (extensionOf (p.1.header v) rest).length = c.length := by
    have hsum := congrArg List.length ht
    rw [List.length_append, List.length_drop] at hsum
    rw [extensionOf_part hnil hrest]
    omega
  have hcalled := @called_of_header v p.1 (bodyformatOf (p.1.header v) st') st'.respPayload
    (by rw [hst.payload, hnil])
  refine ⟨st'.restart, _, fun beyond => ?_, hcalled, hst.restart⟩
  have hle : (p.1.header v).bodylen.toNat ≤ staleLeft (p.1.header v) tail rest := by
    rw [hbody]
    exact Nat.zero_le _
  have hdata : st'.respPayload = if (p.1.header v).bodylen.toNat = 0 then st'.respPayload
      else some (Delivery.read ⟨c, beyond⟩ c.length (p.1.header v).bodylen.toNat) := by
    rw [if_pos hbody]
  obtain ⟨-, hfill⟩ := fillPayload_whole hst ⟨c, beyond⟩ (p.1.header v)
    (bodyformatOf (p.1.header v) st') (by rw [hbody]; decide) hle hdata
  rw [hpass, hend, hfill, hbody, Nat.add_zero]

theorem recvPass_wait (hjson : HEADER_JSON_VERSION ≤ v) {st : RecvState} {part : List UInt8}
    (h : Holds st part) (hpart : part.length ≤ AMCRespHeader.size) {c : List UInt8} {pos : Nat}
    (hpos : pos ≤ c.length) (p : Sent) (hne : p.1.body ≠ [])
    (heq : part ++ c.drop pos = (p.1.header v).encode) :
    ∃ st', (∀ beyond, recvPass ⟨c, beyond⟩ pos st = .next c.length st') ∧
      Holds st' (p.1.header v).encode := by
  have hcut : part ++ c.drop pos = (p.1.header v).encode ++ [] := by
    rw [heq, List.append_nil]
  have hlost : [] ++ (Response.extension v p.2 ++ p.1.body) =
      Response.extension v p.2 ++ p.1.body := rfl
  obtain ⟨tail, st', ht, -, hst, hpass⟩ := recvPass_cut hv h hpart p hcut hlost
  have hbody := p.1.header_bodylen v
  have hpos' : 0 < p.1.body.length := List.length_pos_iff.mpr hne
  have hend : pos + tail.length = c.length := by
    have hsum := congrArg List.length ht
    rw [List.append_nil, List.length_drop] at hsum
    omega
  have hext : extensionOf (p.1.header v) [] = [] := by simp [extensionOf]
  have hleft : staleLeft (p.1.header v) tail [] = 0 := by
    rw [staleLeft, Response.header_version, if_pos hjson, List.length_nil]
  rw [hext, List.append_nil] at hst
  obtain ⟨junk, hbuf, hlen⟩ := hst.buf
  refine ⟨{ st' with respPayload := some [], respPayloadOffset := 0 }, fun beyond => ?_,
    ⟨junk, hbuf, hlen⟩, hst.offset, rfl, rfl⟩
  rw [hpass, hext, hleft, List.length_nil, fillPayload_short hst ⟨c, beyond⟩ _ _
    (by rw [hbody]; exact p.1.data_lt) (by rw [hbody]; exact hpos'), Nat.add_zero, hend,
    Delivery.read_zero]

theorem recvLoop_done {c : List UInt8} (done : List Sent) {xs : List UInt8} :
    ∀ {pos : Nat} {st : RecvState} {part : List UInt8}, Holds st part →
      pos ≤ c.length → part.length ≤ AMCRespHeader.size →
      (∀ p ∈ done.head?, part.length < (Response.pack v p).length) →
      part ++ c.drop pos = wire (Response.pack v) done ++ xs →
      ∃ pos' st' part' calls, Holds st' part' ∧ pos' ≤ c.length ∧
        part'.length ≤ AMCRespHeader.size ∧ (part' = [] ∨ (pos' = pos ∧ part' = part)) ∧
        part' ++ c.drop pos' = xs ∧
        List.Forall₂ Called (done.map Prod.fst) calls ∧ ∀ beyond fuel,
        recvLoop ⟨c, beyond⟩ (fuel + done.length) pos st =
          (recvLoop ⟨c, beyond⟩ fuel pos' st').map fun r => { r with calls := calls ++ r.calls } := by
  induction done with
  | nil =>
    intro pos st part h hpos hpart _ heq
    exact ⟨pos, st, part, [], h, hpos, hpart, .inr ⟨rfl, rfl⟩, heq, .nil, fun beyond fuel => by simp⟩
  | cons p done ih =>
    intro pos st part h hpos hpart hbegun heq
    rw [wire_cons, List.append_assoc] at heq
    obtain ⟨pos₁, st₁, call, hpass, hcall, -, hst₁, hpos₁, hdrop⟩ :=
      recvPass_pack hv h hpart p hpos heq
    obtain ⟨pos', st', part', calls, hst', hpos', hpart', hstart, hxs, hcalls, hrun⟩ :=
      ih hst₁ hpos₁ (Nat.zero_le _) (fun q _ => by
        have hsize := q.1.size_le v
        rw [Response.length_pack hv, List.length_nil]
        unfold AMCRespHeader.size at hsize
        omega) hdrop
    have hlt : pos < c.length := by
      have hlen := congrArg List.length heq
      have hhead := hbegun p rfl
      simp only [List.length_append, List.length_drop] at hlen
      omega
    have hnil : part' = [] := hstart.elim id And.right
    refine ⟨pos', st', part', call :: calls, hst', hpos', hpart', .inl hnil, hxs,
      .cons hcall hcalls, fun beyond fuel => ?_⟩
    rw [List.length_cons, ← Nat.add_assoc, recvLoop, if_neg (Nat.not_le.mpr hlt), hpass]
    simp only [hrun, Option.map_map]
    rfl

end Frames

theorem recvLoop_part {st : RecvState} {part : List UInt8} (h : Holds st part) {c : List UInt8}
    {pos : Nat} (hpos : pos ≤ c.length)
    (hlt : (part ++ c.drop pos).length < AMCRespHeader.size) :
    ∃ st', Holds st' (part ++ c.drop pos) ∧
      ∀ beyond, recvLoop ⟨c, beyond⟩ 2 pos st = some ⟨0, st', []⟩ := by
  by_cases hend : c.length ≤ pos
  · exact ⟨st, by simpa [List.drop_eq_nil_of_le hend] using h,
      fun beyond => by rw [recvLoop, if_pos hend]⟩
  · have hpass (beyond : Nat → UInt8) := recvPass_part h ⟨c, beyond⟩ hpos hlt
    refine ⟨_, (hpass fun _ => 0).1, fun beyond => ?_⟩
    rw [recvLoop, if_neg hend, (hpass beyond).2]
    simp [recvLoop]

theorem recvEvents_cons {fuel₁ fuel₂ : Nat} {st : RecvState} {d : Delivery UInt8} {r : RecvResult}
    {ds : List (Delivery UInt8)} {s : RecvState × List Callback}
    (hr : recvEvent fuel₁ st d = some r) (hs : recvEvents fuel₂ r.st ds = some s) :
    recvEvents (max fuel₁ fuel₂) st (d :: ds) = some (s.1, r.calls ++ s.2) := by
  have hr' : recvEvent (max fuel₁ fuel₂) st d = some r := recvLoop_mono d (Nat.le_max_left _ _) hr
  have hs' := recvEvents_mono (Nat.le_max_right fuel₁ fuel₂) ds hs
  rw [recvEvents, hr', Option.bind_some, hs', Option.map_some]

/-- What is left of an extension after the last packet stays in the header buffer. -/
theorem recvEvents_rest (ds : List (Delivery UInt8)) :
    ∀ {st : RecvState} {part : List UInt8}, Holds st part →
      (part ++ (ds.map (·.bytes)).flatten).length < AMCRespHeader.size →
      ∃ fuel st', recvEvents fuel st ds = some (st', []) := by
  induction ds with
  | nil =>
    intro st part _ _
    exact ⟨0, st, rfl⟩
  | cons d ds ih =>
    intro st part h hlt
    rw [List.map_cons, List.flatten_cons, ← List.append_assoc] at hlt
    have hpart : (part ++ d.bytes.drop 0).length < AMCRespHeader.size := by
      rw [List.length_append] at hlt
      rw [List.drop_zero]
      omega
    obtain ⟨st', hst', hrun⟩ := recvLoop_part h (Nat.zero_le _) hpart
    obtain ⟨fuel, st'', hrest⟩ := ih hst' (by rwa [List.drop_zero])
    exact ⟨_, _, recvEvents_cons (hrun d.beyond) hrest⟩

/-- `onCallback` has been called for exactly the responses `rs`, in order. -/
def ClientFramed (rs : List Response) (st : RecvState) (ds : List (Delivery UInt8)) : Prop :=
  ∃ fuel s, recvEvents fuel st ds = some s ∧ List.Forall₂ Called rs s.2

theorem ClientFramed.cons {rs₁ rs₂ : List Response} {st : RecvState} {d : Delivery UInt8}
    {ds : List (Delivery UInt8)} {fuel : Nat} {r : RecvResult}
    (hr : recvEvent fuel st d = some r) (hcalls : List.Forall₂ Called rs₁ r.calls)
    (hs : ClientFramed rs₂ r.st ds) : ClientFramed (rs₁ ++ rs₂) st (d :: ds) := by
  obtain ⟨fuel', s, hrun, hcalls'⟩ := hs
  exact ⟨_, _, recvEvents_cons hr hrun, List.rel_append hcalls hcalls'⟩

section Frames
variable {v : BitVec 16} (hv : HEADER_PROTOCAL_VERSION ≤ v)
include hv

/-- `part` of the packet `p` has arrived, and its next byte will not be mistaken. -/
structure Pending (v : BitVec 16) (part : List UInt8) (p : Sent) : Prop where
  lt : part.length < (Response.pack v p).length
  le : part.length ≤ AMCRespHeader.size
  whole : part.length = AMCRespHeader.size → HEADER_JSON_VERSION ≤ v ∧ p.1.body ≠ []

theorem pending_nil (p : Sent) : Pending v [] p := by
  have hsize := p.1.size_le v
  refine ⟨?_, Nat.zero_le _, fun h => absurd h (by decide)⟩
  rw [Response.length_pack hv, List.length_nil]
  unfold AMCRespHeader.size at hsize
  omega

theorem Pending.not_badCut {part : List UInt8} {p : Sent} (h : Pending v part p)
    (later : List Response) : part.length < p.1.size v ∧ ¬ badCut v p.1 later part.length := by
  have hlt := h.lt
  rw [Response.length_pack hv] at hlt
  refine ⟨hlt, fun hbad => ?_⟩
  have hle := h.le
  by_cases heq : part.length = AMCRespHeader.size
  · obtain ⟨hjson, hne⟩ := h.whole heq
    rw [badCut, if_pos hjson, if_neg hne] at hbad
    omega
  · simp only [badCut] at hbad
    split at hbad
    · split at hbad <;> omega
    · omega

/-- A chunk that ends well: its packets have been called back, and what it holds of
the next is kept; or that next packet is the last, has an empty body and has been
called back as well. -/
theorem recvEvent_good {st : RecvState} {part c : List UInt8} {done rest : List Sent}
    {part' : List UInt8} (h : Holds st part) (hne : c ≠ [])
    (hpend : ∀ p ∈ (done ++ rest).head?, Pending v part p)
    (hsplit : part ++ c = wire (Response.pack v) done ++ part')
    (hbegun : Begun (Response.pack v) part' rest)
    (hout : ∀ p later, rest = p :: later → ¬ badCut v p.1 (later.map Prod.fst) part'.length) :
    (∃ st' calls, Holds st' part' ∧ (∀ p ∈ rest.head?, Pending v part' p) ∧
      List.Forall₂ Called (done.map Prod.fst) calls ∧
      ∀ beyond, recvEvent (2 + done.length) st ⟨c, beyond⟩ = some ⟨0, st', calls⟩) ∨
    ∃ p st' calls, HEADER_JSON_VERSION ≤ v ∧ rest = [p] ∧ p.1.body = [] ∧
      AMCRespHeader.size ≤ part'.length ∧ Holds st' [] ∧
      List.Forall₂ Called (done.map Prod.fst ++ [p.1]) calls ∧
      ∀ beyond, recvEvent (2 + done.length) st ⟨c, beyond⟩ = some ⟨0, st', calls⟩ := by
  have hhead : ∀ p ∈ done.head?, part.length < (Response.pack v p).length := by
    intro p hp
    cases done with
    | nil => cases hp
    | cons q done => exact (hpend p hp).lt
  have hpart : part.length ≤ AMCRespHeader.size := by
    cases hall : done ++ rest with
    | nil =>
      obtain ⟨rfl, rfl⟩ := List.append_eq_nil_iff.mp hall
      have hnil : part' = [] := hbegun
      rw [hnil] at hsplit
      exact absurd (List.append_eq_nil_iff.mp hsplit).2 hne
    | cons p ps => exact (hpend p (by rw [hall]; rfl)).le
  obtain ⟨pos, st₁, part₁, calls, hst₁, hpos, hpart₁, hstart, hxs, hcalls, hrun⟩ :=
    recvLoop_done hv done h (Nat.zero_le _) hpart hhead hsplit
  have hevent {st' : RecvState} {new : List Callback} {beyond : Nat → UInt8}
      (hnew : recvLoop ⟨c, beyond⟩ 2 pos st₁ = some ⟨0, st', new⟩) :
      recvEvent (2 + done.length) st ⟨c, beyond⟩ = some ⟨0, st', calls ++ new⟩ := by
    rw [recvEvent, hrun beyond 2, hnew]
    rfl
  by_cases hshort : part'.length < AMCRespHeader.size
  · obtain ⟨st', hst', hnew⟩ := recvLoop_part hst₁ hpos (by rwa [hxs])
    rw [hxs] at hst'
    refine .inl ⟨st', calls, hst', fun p hp => ?_, hcalls, fun beyond => ?_⟩
    · cases rest with
      | nil => cases hp
      | cons q later =>
        obtain rfl := Option.some.inj hp
        exact ⟨hbegun.1, Nat.le_of_lt hshort, fun h32 => absurd h32 (Nat.ne_of_lt hshort)⟩
    · simpa using hevent (hnew beyond)
  cases rest with
  | nil =>
    have hnil : part' = [] := hbegun
    simp [hnil, AMCRespHeader.size] at hshort
  | cons p later =>
    obtain ⟨hlt, lost, hlost⟩ := hbegun
    have hcut := hout p later rfl
    have hencle : (p.1.header v).encode.length ≤ part'.length := by
      rw [AMCRespHeader.length_encode]
      omega
    rw [Response.pack_eq hv] at hlost
    obtain ⟨got, rfl⟩ : (p.1.header v).encode <+: part' :=
      List.prefix_of_prefix_length_le (List.prefix_append _ _) ⟨lost, hlost⟩ hencle
    rw [List.append_assoc, List.append_cancel_left_eq] at hlost
    have hlt' := hlt
    rw [Response.length_pack hv] at hlt'
    simp only [List.length_append, AMCRespHeader.length_encode, Response.size] at hlt'
    rw [List.length_append, AMCRespHeader.length_encode] at hcut
    have hjson : HEADER_JSON_VERSION ≤ v := by
      by_contra hproto
      rw [badCut, if_neg hproto] at hcut
      omega
    rw [if_pos hjson] at hlt'
    simp only [badCut, if_pos hjson] at hcut
    have hmore : pos < c.length := by
      by_contra hend
      rw [List.drop_eq_nil_of_le (Nat.le_of_not_lt hend), List.append_nil] at hxs
      rcases hstart with hnil | ⟨rfl, -⟩
      · have hsum := congrArg List.length hxs
        rw [hnil, List.length_nil] at hsum
        exact hshort (by rw [← hsum]; decide)
      · exact hne (List.length_eq_zero_iff.mp (Nat.le_zero.mp (Nat.le_of_not_lt hend)))
    by_cases hnil : p.1.body = []
    · -- the last packet, with an empty body: the rest of its extension is stray
      have hlater : later = [] := by
        by_contra hlater
        rw [if_pos hnil] at hcut
        exact hcut ⟨Nat.le_add_right _ _, by simpa using hlater⟩
      obtain ⟨st', call, hpass, hcall, hst'⟩ := recvPass_early hv hst₁ hpart₁ hpos p hnil hxs hlost
      refine .inr ⟨p, st', calls ++ [call], hjson, by rw [hlater], hnil, Nat.le_of_not_lt hshort,
        hst', List.rel_append hcalls (.cons hcall .nil), fun beyond => hevent ?_⟩
      rw [recvLoop, if_neg (Nat.not_le.mpr hmore), hpass]
      simp [recvLoop]
    · rw [if_neg hnil] at hcut
      have hgot : got = [] := List.length_eq_zero_iff.mp (by omega)
      subst hgot
      rw [List.append_nil] at hxs hlt
      obtain ⟨st', hpass, hst'⟩ := recvPass_wait hv hjson hst₁ hpart₁ hpos p hnil hxs
      rw [List.append_nil]
      refine .inl ⟨st', calls, hst', fun q hq => ?_, hcalls, fun beyond => ?_⟩
      · obtain rfl := Option.some.inj hq
        exact ⟨hlt, Nat.le_of_eq (p.1.header v).length_encode, fun _ => ⟨hjson, hnil⟩⟩
      · have hnew : recvLoop ⟨c, beyond⟩ 2 pos st₁ = some ⟨0, st', []⟩ := by
          rw [recvLoop, if_neg (Nat.not_le.mpr hmore), hpass]
          simp [recvLoop]
        simpa using hevent hnew

theorem recvEvents_framed (ds : List (Delivery UInt8)) :
    ∀ {st : RecvState} {part : List UInt8} {ps : List Sent}, Holds st part →
      (∀ p ∈ ps.head?, Pending v part p) →
      part ++ (ds.map (·.bytes)).flatten = wire (Response.pack v) ps →
      NoCut (fun p : Sent => p.1.size v) (fun p later => badCut v p.1 (later.map Prod.fst))
        part.length ps (ds.map (·.bytes.length)) →
      ClientFramed (ps.map Prod.fst) st ds := by
  induction ds with
  | nil =>
    intro st part ps _ hpend heq _
    cases ps with
    | nil => exact ⟨0, _, rfl, .nil⟩
    | cons p ps =>
      have hlen := congrArg List.length heq
      have hlt := (hpend p rfl).lt
      simp only [List.map_nil, List.flatten_nil, List.append_nil, wire_cons,
        List.length_append] at hlen
      omega
  | cons d ds ih =>
    intro st part ps h hpend heq hcut
    rw [List.map_cons, List.flatten_cons, ← List.append_assoc] at heq
    by_cases hempty : d.bytes = []
    · have hr : recvEvent 1 st d = some ⟨0, st, []⟩ := by
        rw [recvEvent, recvLoop, if_pos (by simp [hempty])]
      rw [hempty, List.append_nil] at heq
      have hnext : part.length + d.bytes.length =
          (List.map (fun p : Sent => p.1.size v) []).sum + part.length := by
        simp [hempty]
      exact ClientFramed.cons hr .nil (ih h hpend heq (NoCut.tail hcut hnext))
    obtain ⟨done, rest, part', rfl, hsplit, hbegun⟩ := exists_cut (Response.pack v) heq
    have hlen : part.length + d.bytes.length =
        (done.map fun p : Sent => p.1.size v).sum + part'.length := by
      simpa [length_wire, Response.length_pack hv] using congrArg List.length hsplit
    rw [hsplit, wire_append, List.append_assoc, List.append_cancel_left_eq] at heq
    have hout : ∀ p later, rest = p :: later →
        ¬ badCut v p.1 (later.map Prod.fst) part'.length := by
      rintro p later rfl
      exact hcut.head hlen (by rw [← Response.length_pack hv p]; exact hbegun.1)
    rw [List.map_append]
    rcases recvEvent_good hv h hempty hpend hsplit hbegun hout with
      ⟨st', calls, hst', hpend', hcalls, hrun⟩ |
      ⟨p, st', calls, hjson, rfl, hnil, hge, hst', hcalls, hrun⟩
    · exact ClientFramed.cons (hrun d.beyond) hcalls (ih hst' hpend' heq (hcut.tail hlen))
    · have hstray := congrArg List.length heq
      rw [wire_cons, wire_nil, List.append_nil, Response.length_pack hv, List.length_append,
        Response.size, if_pos hjson, hnil, List.length_nil] at hstray
      obtain ⟨fuel, st'', hrest⟩ := recvEvents_rest ds hst' (by
        rw [List.nil_append]
        unfold AMCRespHeaderV2.size at hstray
        unfold AMCRespHeader.size at *
        omega)
      have hframed := ClientFramed.cons (hrun d.beyond) hcalls ⟨_, _, hrest, .nil⟩
      simpa using hframed

end Frames

end LocalsocketClient

end Hardcoder
