import Hardcoder.Header
import Hardcoder.Lib.Stream

/-! `LocalsocketClient::recvEvent` on `EVENT_DATA`. Both header layouts share one
buffer and one offset; the buffer is never cleared, so what lies behind the
offset is left from earlier responses or from the heap. -/

namespace Hardcoder
open Stream
set_option autoImplicit false

namespace LocalsocketClient

/-- The response members of the client. `respPayload` is what has been copied into
the payload block so far (`none` for a null pointer). -/
structure RecvState where
  respHeaderBuf : List UInt8
  respHeaderOffset : Nat
  respPayload : Option (List UInt8)
  respPayloadOffset : Nat
deriving DecidableEq, Repr

namespace RecvState

/-- `LocalsocketClient()`, in a block that held `buf`. -/
def new (buf : List UInt8) : RecvState := ⟨buf, 0, none, 0⟩

/-- `memcpy(respHeaderBuf + respHeaderOffset, ..)` and the move of the offset. -/
def fillHeader (st : RecvState) (xs : List UInt8) : RecvState :=
  { st with
    respHeaderBuf := st.respHeaderBuf.take st.respHeaderOffset ++
      (xs ++ st.respHeaderBuf.drop (st.respHeaderOffset + xs.length))
    respHeaderOffset := st.respHeaderOffset + xs.length }

/-- The resets after a callback. -/
def restart (st : RecvState) : RecvState :=
  { st with respPayload := none, respHeaderOffset := 0, respPayloadOffset := 0 }

end RecvState

/-- The arguments of one `onCallback` call. -/
structure Callback where
  funcid : BitVec 16
  requestid : BitVec 64
  bodyformat : BitVec 32
  timestamp : BitVec 64
  retCode : BitVec 32
  data : Option (List UInt8)
  len : Nat
deriving DecidableEq, Repr

/-- How one pass of the loop body ends. -/
inductive Pass where
  | next (recvDataOffset : Nat) (st : RecvState)
  /-- `return -1` on a wrong begin marker -/
  | refuse (st : RecvState)
  /-- `memcpy` with a negative `int` length -/
  | fault
  | callback (recvDataOffset : Nat) (st : RecvState) (call : Callback)
deriving DecidableEq, Repr

/-- The end of both branches: fill the payload, and call back when it is complete. -/
def fillPayload (recvData : Delivery UInt8) (recvDataLeft recvDataOffset : Nat)
    (pHeader : AMCRespHeader) (bodyformat : BitVec 32) (st : RecvState) : Pass :=
  let bodylen := pHeader.bodylen.toNat
  let finish (recvDataOffset : Nat) (st : RecvState) : Pass :=
    if st.respPayloadOffset = bodylen then
      .callback recvDataOffset st.restart
        ⟨pHeader.funcid, pHeader.requestid, bodyformat, pHeader.timestamp, pHeader.retCode,
          st.respPayload, st.respPayloadOffset⟩
    else .next recvDataOffset st
  if bodylen = 0 then finish recvDataOffset st
  else
    let missing := (((bodylen : Int) - st.respPayloadOffset) % 2 ^ 32).toNat
    if 2 ^ 31 ≤ missing then .fault
    else
      let shouldRead := min missing recvDataLeft
      finish (recvDataOffset + shouldRead)
        { st with
          respPayload := some (st.respPayload.getD [] ++ recvData.read recvDataOffset shouldRead)
          respPayloadOffset := st.respPayloadOffset + shouldRead }

/-- The branch for `respHeaderOffset == sizeof(AMCRespHeader)`. -/
def handlePack (recvData : Delivery UInt8) (recvDataLeft recvDataOffset : Nat) (st : RecvState) :
    Pass :=
  let pHeader := AMCRespHeader.decode st.respHeaderBuf
  if pHeader.begin ≠ HEADER_BEGIN then
    .refuse { st with respPayload := none, respHeaderOffset := 0 }
  else if HEADER_JSON_VERSION ≤ pHeader.version then
    let recvDataLeft := recvData.bytes.length - recvDataOffset
    let shouldRead := min (AMCRespHeaderV2.size - st.respHeaderOffset) recvDataLeft
    let st := st.fillHeader (recvData.read recvDataOffset shouldRead)
    let pHeaderV2 := AMCRespHeaderV2.decode st.respHeaderBuf
    -- `recvDataLeft` still counts the bytes of the extension
    fillPayload recvData recvDataLeft (recvDataOffset + shouldRead) pHeaderV2.toAMCRespHeader
      pHeaderV2.bodyformat st
  else
    -- `recvDataLeft` still counts the header bytes of this pass
    fillPayload recvData recvDataLeft recvDataOffset pHeader HEADER_BODYFORMAT_PROTO st

def recvPass (recvData : Delivery UInt8) (recvDataOffset : Nat) (st : RecvState) : Pass :=
  let recvDataLeft := recvData.bytes.length - recvDataOffset
  let shouldRead := min (AMCRespHeader.size - st.respHeaderOffset) recvDataLeft
  let st := if st.respHeaderOffset < AMCRespHeader.size then
    st.fillHeader (recvData.read recvDataOffset shouldRead) else st
  let recvDataOffset := recvDataOffset + shouldRead
  if st.respHeaderOffset = AMCRespHeader.size then
    handlePack recvData recvDataLeft recvDataOffset st
  else .next recvDataOffset st

structure RecvResult where
  ret : Int
  st : RecvState
  calls : List Callback
deriving DecidableEq, Repr

/-- The loop. `none`: it crashed, or did not end within `fuel` passes. -/
def recvLoop (recvData : Delivery UInt8) : Nat → Nat → RecvState → Option RecvResult
  | 0, _, _ => none
  | fuel + 1, recvDataOffset, st =>
    if recvData.bytes.length ≤ recvDataOffset then some ⟨0, st, []⟩
    else
      match recvPass recvData recvDataOffset st with
      | .next recvDataOffset st => recvLoop recvData fuel recvDataOffset st
      | .refuse st => some ⟨-1, st, []⟩
      | .fault => none
      | .callback recvDataOffset st call =>
        (recvLoop recvData fuel recvDataOffset st).map fun r => { r with calls := call :: r.calls }

def recvEvent (fuel : Nat) (st : RecvState) (recvData : Delivery UInt8) : Option RecvResult :=
  recvLoop recvData fuel 0 st

/-- Successive `EVENT_DATA` events; the caller ignores the return value. -/
def recvEvents (fuel : Nat) : RecvState → List (Delivery UInt8) → Option (RecvState × List Callback)
  | st, [] => some (st, [])
  | st, d :: ds =>
    (recvEvent fuel st d).bind fun r =>
      (recvEvents fuel r.st ds).map fun s => (s.1, r.calls ++ s.2)

theorem recvLoop_mono (d : Delivery UInt8) {fuel fuel' : Nat} (hle : fuel ≤ fuel') :
    ∀ {pos : Nat} {st : RecvState} {r : RecvResult},
      recvLoop d fuel pos st = some r → recvLoop d fuel' pos st = some r := by
  induction fuel generalizing fuel' with
  | zero =>
    intro pos st r h
    simp [recvLoop] at h
  | succ fuel ih =>
    intro pos st r h
    obtain ⟨fuel', rfl⟩ : ∃ n, fuel' = n + 1 := ⟨fuel' - 1, by omega⟩
    have hle' := Nat.le_of_succ_le_succ hle
    rw [recvLoop] at h ⊢
    split
    · rw [if_pos ‹_›] at h
      exact h
    · rw [if_neg ‹_›] at h
      cases hp : recvPass d pos st with
      | next pos' st' =>
        rw [hp] at h
        exact ih hle' h
      | refuse st' => simpa [hp] using h
      | fault => simp [hp] at h
      | callback pos' st' call =>
        rw [hp] at h
        obtain ⟨r', hr', rfl⟩ := Option.map_eq_some_iff.mp h
        simp [ih hle' hr']

theorem recvEvents_mono {fuel fuel' : Nat} (hle : fuel ≤ fuel') (ds : List (Delivery UInt8)) :
    ∀ {st : RecvState} {s : RecvState × List Callback},
      recvEvents fuel st ds = some s → recvEvents fuel' st ds = some s := by
  induction ds with
  | nil => exact fun h => h
  | cons d ds ih =>
    intro st s h
    obtain ⟨r, hr, h⟩ := Option.bind_eq_some_iff.mp h
    obtain ⟨s', hs', rfl⟩ := Option.map_eq_some_iff.mp h
    have hr' : recvEvent fuel' st d = some r := recvLoop_mono d hle hr
    simp [recvEvents, hr', ih hs']

/-- `part` is what the header buffer holds of a pack, and no payload has been copied. -/
structure Holds (st : RecvState) (part : List UInt8) : Prop where
  buf : ∃ junk, st.respHeaderBuf = part ++ junk ∧ part.length + junk.length = AMCRespHeaderV2.size
  offset : st.respHeaderOffset = part.length
  payload : st.respPayload.getD [] = []
  payloadOffset : st.respPayloadOffset = 0

theorem holds_new {buf : List UInt8} (h : buf.length = AMCRespHeaderV2.size) :
    Holds (.new buf) [] :=
  ⟨⟨buf, rfl, by simpa using h⟩, rfl, rfl, rfl⟩

namespace Holds
variable {st : RecvState} {part : List UInt8}

theorem fill (h : Holds st part) {xs : List UInt8}
    (hle : part.length + xs.length ≤ AMCRespHeaderV2.size) :
    Holds (st.fillHeader xs) (part ++ xs) := by
  obtain ⟨junk, hbuf, hlen⟩ := h.buf
  refine ⟨⟨junk.drop xs.length, ?_, ?_⟩, ?_, h.payload, h.payloadOffset⟩
  · simp only [RecvState.fillHeader, h.offset, hbuf, List.take_left, ← List.drop_drop,
      List.drop_left, List.append_assoc]
  · simp only [List.length_append, List.length_drop]
    omega
  · simp [RecvState.fillHeader, h.offset]

theorem header (h : Holds st part) (hlen : AMCRespHeader.size ≤ part.length) :
    AMCRespHeader.decode st.respHeaderBuf = AMCRespHeader.decode part := by
  obtain ⟨junk, hbuf, -⟩ := h.buf
  rw [hbuf, AMCRespHeader.decode_append hlen]

theorem restart (h : Holds st part) :
    Holds st.restart [] := by
  obtain ⟨junk, hbuf, hlen⟩ := h.buf
  exact ⟨⟨part ++ junk, hbuf, by simpa using hlen⟩, rfl, rfl, rfl⟩

end Holds

theorem RecvState.fillHeader_nil (st : RecvState) : st.fillHeader [] = st := by
  simp [RecvState.fillHeader]

theorem recvPass_part {st : RecvState} {part : List UInt8} (h : Holds st part) (d : Delivery UInt8)
    {pos : Nat} (hpos : pos ≤ d.bytes.length)
    (hlt : (part ++ d.bytes.drop pos).length < AMCRespHeader.size) :
    Holds (st.fillHeader (d.bytes.drop pos)) (part ++ d.bytes.drop pos) ∧
      recvPass d pos st = .next d.bytes.length (st.fillHeader (d.bytes.drop pos)) := by
  rw [List.length_append, List.length_drop] at hlt
  have hread : min (AMCRespHeader.size - part.length) (d.bytes.length - pos) =
      (d.bytes.drop pos).length := by
    rw [List.length_drop]
    omega
  have hbytes : d.read pos (d.bytes.drop pos).length = d.bytes.drop pos :=
    d.read_front (List.append_nil _).symm
  have hfit : part.length + (d.bytes.drop pos).length ≤ AMCRespHeaderV2.size := by
    rw [List.length_drop, AMCRespHeaderV2.size]
    unfold AMCRespHeader.size at hlt
    omega
  have hfill := h.fill hfit
  refine ⟨hfill, ?_⟩
  have hpart : part.length < AMCRespHeader.size := by omega
  have hoff : (st.fillHeader (d.bytes.drop pos)).respHeaderOffset ≠ AMCRespHeader.size := by
    rw [hfill.offset, List.length_append, List.length_drop]
    omega
  simp only [recvPass, h.offset, hread, hbytes]
  rw [if_pos hpart, if_neg hoff, List.length_drop, Nat.add_sub_of_le hpos]

/-- What a pass reads as the version 2 part of a header followed by `rest`. -/
def extensionOf (pHeader : AMCRespHeader) (rest : List UInt8) : List UInt8 :=
  if HEADER_JSON_VERSION ≤ pHeader.version then
    rest.take (AMCRespHeaderV2.size - AMCRespHeader.size)
  else []

/-- The `recvDataLeft` the payload is read with, in a pass that completed the header
by its last `tail` bytes. -/
def staleLeft (pHeader : AMCRespHeader) (tail rest : List UInt8) : Nat :=
  if HEADER_JSON_VERSION ≤ pHeader.version then rest.length else tail.length + rest.length

def bodyformatOf (pHeader : AMCRespHeader) (st : RecvState) : BitVec 32 :=
  if HEADER_JSON_VERSION ≤ pHeader.version then
    (AMCRespHeaderV2.decode st.respHeaderBuf).bodyformat
  else HEADER_BODYFORMAT_PROTO

section Handle
variable {st : RecvState} {part tail head rest : List UInt8} (h : Holds st part)
  (hhead : part ++ tail = head) (hlen : head.length = AMCRespHeader.size) (d : Delivery UInt8)
  {pos : Nat} (ht : d.bytes.drop pos = tail ++ rest)
include h hhead hlen ht

omit h in
/-- The pass reads `tail` to the end of the header. -/
theorem header_read : d.bytes.length - pos = tail.length + rest.length ∧
    part.length + tail.length = AMCRespHeader.size ∧
    min (AMCRespHeader.size - part.length) (d.bytes.length - pos) = tail.length := by
  have hleft := congrArg List.length ht
  rw [List.length_drop, List.length_append] at hleft
  have hsum := congrArg List.length hhead
  rw [List.length_append, hlen] at hsum
  refine ⟨hleft, hsum, ?_⟩
  omega

theorem recvPass_header : Holds (st.fillHeader tail) head ∧
    recvPass d pos st =
      handlePack d (tail.length + rest.length) (pos + tail.length) (st.fillHeader tail) := by
  obtain ⟨hleft, hsum, hread⟩ := header_read hhead hlen d ht
  have hfit : part.length + tail.length ≤ AMCRespHeaderV2.size := by
    rw [hsum]
    decide
  have hfill := h.fill hfit
  rw [hhead] at hfill
  refine ⟨hfill, ?_⟩
  have hoff : (st.fillHeader tail).respHeaderOffset = AMCRespHeader.size := by
    rw [hfill.offset, hlen]
  by_cases hpart : part.length < AMCRespHeader.size
  · simp only [recvPass, h.offset, hread, d.read_front ht]
    rw [if_pos hpart, if_pos hoff, hleft]
  · have htail : tail = [] := List.length_eq_zero_iff.mp (by omega)
    rw [htail, RecvState.fillHeader_nil] at hoff ⊢
    simp only [recvPass, h.offset, hread, htail, List.length_nil]
    rw [if_neg hpart, if_pos hoff, hleft, htail, List.length_nil]

theorem recvPass_refuse (hbegin : (AMCRespHeader.decode head).begin ≠ HEADER_BEGIN) :
    Holds (st.fillHeader tail).restart [] ∧
      recvPass d pos st = .refuse (st.fillHeader tail).restart := by
  obtain ⟨hst, hpass⟩ := recvPass_header h hhead hlen d ht
  have hdec := hst.header (Nat.le_of_eq hlen.symm)
  refine ⟨hst.restart, ?_⟩
  rw [hpass]
  simp only [handlePack, hdec, if_pos hbegin, RecvState.restart, hst.payloadOffset]

/-- The version 2 part is read in the same pass, and leaves the header as it is. -/
theorem extension_read (hv : HEADER_JSON_VERSION ≤ (AMCRespHeader.decode head).version)
    {st' : RecvState} {ext : List UInt8} (hext : ext = extensionOf (.decode head) rest)
    (hst' : st' = (st.fillHeader tail).fillHeader ext) :
    d.bytes.length - (pos + tail.length) = rest.length ∧
      min (AMCRespHeaderV2.size - AMCRespHeader.size) rest.length = ext.length ∧
      d.read (pos + tail.length) ext.length = ext ∧ Holds st' (head ++ ext) ∧
      (AMCRespHeaderV2.decode st'.respHeaderBuf).toAMCRespHeader = .decode head := by
  have hdrop : d.bytes.drop (pos + tail.length) = rest := drop_add_of_drop ht
  rw [extensionOf, if_pos hv] at hext
  have hextlen : min (AMCRespHeaderV2.size - AMCRespHeader.size) rest.length = ext.length := by
    rw [hext, List.length_take]
  have hsplit : rest = ext ++ rest.drop (AMCRespHeaderV2.size - AMCRespHeader.size) := by
    rw [hext, List.take_append_drop]
  have hfit : head.length + ext.length ≤ AMCRespHeaderV2.size := by
    rw [hlen, ← hextlen, AMCRespHeader.size, AMCRespHeaderV2.size]
    omega
  have hfill := (recvPass_header h hhead hlen d ht).1.fill hfit
  rw [← hst'] at hfill
  have hboth := hfill.header (by
    rw [List.length_append, hlen]
    exact Nat.le_add_right _ _)
  refine ⟨?_, hextlen, d.read_front (hdrop.trans hsplit), hfill, ?_⟩
  · rw [← hdrop, List.length_drop]
  · exact hboth.trans (AMCRespHeader.decode_append (Nat.le_of_eq hlen.symm) ext)

theorem recvPass_accept (hbegin : (AMCRespHeader.decode head).begin = HEADER_BEGIN)
    {st' : RecvState} {ext : List UInt8} (hext : ext = extensionOf (.decode head) rest)
    (hst' : st' = (st.fillHeader tail).fillHeader ext) :
    Holds st' (head ++ ext) ∧ recvPass d pos st =
      fillPayload d (staleLeft (.decode head) tail rest) (pos + tail.length + ext.length)
        (.decode head) (bodyformatOf (.decode head) st') st' := by
  obtain ⟨hst, hpass⟩ := recvPass_header h hhead hlen d ht
  have hdec := hst.header (Nat.le_of_eq hlen.symm)
  rw [hpass]
  by_cases hv : HEADER_JSON_VERSION ≤ (AMCRespHeader.decode head).version
  · obtain ⟨hleft, hextlen, hread, hfill, hbase⟩ := extension_read h hhead hlen d ht hv hext hst'
    refine ⟨hfill, ?_⟩
    simp only [handlePack, hdec, hbegin, ne_eq, not_true, if_false, if_pos hv, hst.offset, hlen,
      hleft, hextlen, hread, ← hst', hbase, staleLeft, bodyformatOf]
  · rw [extensionOf, if_neg hv] at hext
    rw [hext, RecvState.fillHeader_nil] at hst'
    refine ⟨by rw [hst', hext, List.append_nil]; exact hst, ?_⟩
    simp only [handlePack, hdec, hbegin, ne_eq, not_true, if_false, if_neg hv, hst', hext,
      staleLeft, bodyformatOf, List.length_nil, Nat.add_zero]

end Handle

section Payload
variable {st : RecvState} {part : List UInt8} (h : Holds st part) (d : Delivery UInt8)
  {left pos : Nat} (pHeader : AMCRespHeader) (bodyformat : BitVec 32)
include h

theorem fillPayload_whole (hlt : pHeader.bodylen.toNat < 2 ^ 31)
    (hle : pHeader.bodylen.toNat ≤ left) {data : Option (List UInt8)}
    (hdata : data = if pHeader.bodylen.toNat = 0 then st.respPayload
      else some (d.read pos pHeader.bodylen.toNat)) :
    data.getD [] = d.read pos pHeader.bodylen.toNat ∧
      fillPayload d left pos pHeader bodyformat st =
        .callback (pos + pHeader.bodylen.toNat) st.restart ⟨pHeader.funcid, pHeader.requestid,
          bodyformat, pHeader.timestamp, pHeader.retCode, data, pHeader.bodylen.toNat⟩ := by
  by_cases hzero : pHeader.bodylen.toNat = 0
  · rw [if_pos hzero] at hdata
    refine ⟨by rw [hdata, h.payload, hzero, Delivery.read_zero], ?_⟩
    simp only [fillPayload, hzero, if_true, h.payloadOffset, Nat.add_zero, hdata]
  · rw [if_neg hzero] at hdata
    have hmissing : (((pHeader.bodylen.toNat : Int) - (0 : Nat)) % 2 ^ 32).toNat =
        pHeader.bodylen.toNat := by omega
    refine ⟨by rw [hdata, Option.getD_some], ?_⟩
    simp only [fillPayload, if_neg hzero, h.payloadOffset, hmissing, if_neg (Nat.not_le.mpr hlt),
      Nat.min_eq_left hle, h.payload, List.nil_append, Nat.zero_add, if_true, hdata,
      RecvState.restart]

/-- The stale count is smaller than the payload: the pass ends with what it counted. -/
theorem fillPayload_short (hlt : pHeader.bodylen.toNat < 2 ^ 31)
    (hleft : left < pHeader.bodylen.toNat) :
    fillPayload d left pos pHeader bodyformat st = .next (pos + left)
      { st with respPayload := some (d.read pos left), respPayloadOffset := left } := by
  have hzero : pHeader.bodylen.toNat ≠ 0 := by omega
  have hmissing : (((pHeader.bodylen.toNat : Int) - (0 : Nat)) % 2 ^ 32).toNat =
      pHeader.bodylen.toNat := by omega
  simp only [fillPayload, if_neg hzero, h.payloadOffset, hmissing, if_neg (Nat.not_le.mpr hlt),
    Nat.min_eq_right (Nat.le_of_lt hleft), h.payload, List.nil_append, Nat.zero_add,
    if_neg (Nat.ne_of_lt hleft)]

theorem fillPayload_fault (hlt : 2 ^ 31 ≤ pHeader.bodylen.toNat) :
    fillPayload d left pos pHeader bodyformat st = .fault := by
  have hzero : pHeader.bodylen.toNat ≠ 0 := by omega
  have hmissing : (((pHeader.bodylen.toNat : Int) - (0 : Nat)) % 2 ^ 32).toNat =
      pHeader.bodylen.toNat := by
    have hword := pHeader.bodylen.isLt
    omega
  simp only [fillPayload, if_neg hzero, h.payloadOffset, hmissing, if_pos hlt]

end Payload

end LocalsocketClient

end Hardcoder
