import Hardcoder.Header
import Hardcoder.Lib.Stream

/-! `LocalSocketServer::recvEvent` on `EVENT_DATA`, for one connection. The cache is
the connection's entry of `mapRecvCache`. Bytes are of any type with a value, so
that a caller may tag each byte with its origin. -/

namespace Hardcoder
open Stream
set_option autoImplicit false

variable {α : Type}

/-- Partly received request. `reqHeaderOffset` and `reqPayloadOffset` are the
lengths of what has been copied into the two buffers so far. -/
structure RecvCache (α : Type) where
  reqHeaderBuf : List α
  reqPayload : Option (List α)
deriving DecidableEq, Repr

namespace RecvCache

/-- `new RecvCache()` -/
def new : RecvCache α := ⟨[], none⟩

def reqHeaderOffset (c : RecvCache α) : Nat := c.reqHeaderBuf.length

def reqPayloadOffset (c : RecvCache α) : Nat := (c.reqPayload.getD []).length

def pHeader (val : α → UInt8) (c : RecvCache α) : AMCReqHeader :=
  .decode (c.reqHeaderBuf.map val)

end RecvCache

/-- The arguments of one `processReceive` call: the header, the bytes it was read
from, and the payload (`none` for a null pointer) with its length. -/
structure ReqFrame (α : Type) where
  pHead : AMCReqHeader
  headerBuf : List α
  payload : Option (List α)
  payloadLen : BitVec 32
deriving DecidableEq, Repr

/-- `const uint32_t readLeft = (recvDataLen - (readPtr - recvData))` -/
def readLeft (recvDataLen readPtr : Nat) : Nat := (((recvDataLen : Int) - readPtr) % 2 ^ 32).toNat

/-- How one pass of the loop body ends. -/
inductive Pass (α : Type) where
  /-- `break`, to wait for the next event -/
  | wait (cache : RecvCache α)
  /-- `return -1` on a wrong begin marker -/
  | refuse
  /-- `memcpy` with a negative `int` length -/
  | fault
  /-- `processReceive` is called and the loop goes on at `readPtr` -/
  | dispatch (readPtr : Nat) (frame : ReqFrame α)
deriving DecidableEq, Repr

/-- One pass of the loop, with the `readLeft` its condition computed. -/
def recvPass (val : α → UInt8) (recvData : Delivery α) (readLeft readPtr : Nat)
    (cache : RecvCache α) : Pass α :=
  -- fill header
  let shouldRead := min (AMCReqHeader.size - cache.reqHeaderOffset) readLeft
  let cache := { cache with reqHeaderBuf := cache.reqHeaderBuf ++ recvData.read readPtr shouldRead }
  let readPtr := readPtr + shouldRead
  if cache.reqHeaderOffset < AMCReqHeader.size then .wait cache
  else
    let pHeader := cache.pHeader val
    let bodylen := pHeader.bodylen.toNat
    if pHeader.begin ≠ HEADER_BEGIN then .refuse
    else if cache.reqPayloadOffset < bodylen then
      -- `readLeft` is still the value from the top of the pass
      let shouldRead := min (bodylen - cache.reqPayloadOffset) readLeft
      if 2 ^ 31 ≤ shouldRead then .fault
      else
        let reqPayload := cache.reqPayload.getD [] ++ recvData.read readPtr shouldRead
        if reqPayload.length < bodylen then .wait { cache with reqPayload := some reqPayload }
        else .dispatch (readPtr + shouldRead)
          ⟨pHeader, cache.reqHeaderBuf, some reqPayload, pHeader.bodylen⟩
    else .dispatch readPtr ⟨pHeader, cache.reqHeaderBuf, cache.reqPayload, pHeader.bodylen⟩

/-- Return value, the connection's `mapRecvCache` entry afterwards, and the
`processReceive` calls made. -/
structure RecvResult (α : Type) where
  ret : Int
  cache : Option (RecvCache α)
  frames : List (ReqFrame α)
deriving DecidableEq, Repr

/-- The loop. `none`: it crashed, or did not end within `fuel` passes. -/
def recvLoop (val : α → UInt8) (recvData : Delivery α) :
    Nat → Nat → Option (RecvCache α) → Option (RecvResult α)
  | 0, _, _ => none
  | fuel + 1, readPtr, cache =>
    let left := readLeft recvData.bytes.length readPtr
    if left = 0 then some ⟨0, cache, []⟩
    else
      match recvPass val recvData left readPtr (cache.getD .new) with
      | .wait cache => some ⟨0, some cache, []⟩
      | .refuse => some ⟨-1, none, []⟩
      | .fault => none
      | .dispatch readPtr frame =>
        (recvLoop val recvData fuel readPtr none).map fun r => { r with frames := frame :: r.frames }

def recvEvent (val : α → UInt8) (fuel : Nat) (cache : Option (RecvCache α))
    (recvData : Delivery α) : Option (RecvResult α) :=
  recvLoop val recvData fuel 0 cache

/-- Successive `EVENT_DATA` events of one connection; the caller ignores the
return value. -/
def recvEvents (val : α → UInt8) (fuel : Nat) :
    Option (RecvCache α) → List (Delivery α) → Option (Option (RecvCache α) × List (ReqFrame α))
  | cache, [] => some (cache, [])
  | cache, d :: ds =>
    (recvEvent val fuel cache d).bind fun r =>
      (recvEvents val fuel r.cache ds).map fun s => (s.1, r.frames ++ s.2)

theorem readLeft_eq {len pos : Nat} (hpos : pos ≤ len) (hlen : len < 2 ^ 31) :
    readLeft len pos = len - pos := by
  unfold readLeft
  omega

/-- The body part of a pass that has just completed the header. -/
def bodyPass (recvData : Delivery α) (readLeft readPtr : Nat) (pHeader : AMCReqHeader)
    (headerBuf : List α) : Pass α :=
  if 0 < pHeader.bodylen.toNat then
    let shouldRead := min pHeader.bodylen.toNat readLeft
    if 2 ^ 31 ≤ shouldRead then .fault
    else if shouldRead < pHeader.bodylen.toNat then
      .wait ⟨headerBuf, some (recvData.read readPtr shouldRead)⟩
    else .dispatch (readPtr + shouldRead)
      ⟨pHeader, headerBuf, some (recvData.read readPtr shouldRead), pHeader.bodylen⟩
  else .dispatch readPtr ⟨pHeader, headerBuf, none, pHeader.bodylen⟩

section Pass
variable {val : α → UInt8} (d : Delivery α) {pos left : Nat} {part tail head rest : List α}
  {h : AMCReqHeader}

theorem recvPass_header (hhead : part ++ tail = head) (hlen : head.length = AMCReqHeader.size)
    (hdec : AMCReqHeader.decode (head.map val) = h) (hbegin : h.begin = HEADER_BEGIN)
    (ht : d.bytes.drop pos = tail ++ rest) (hleft : tail.length ≤ left) :
    recvPass val d left pos ⟨part, none⟩ = bodyPass d left (pos + tail.length) h head := by
  have hsum := congrArg List.length hhead
  rw [List.length_append, hlen] at hsum
  have hread : min (AMCReqHeader.size - part.length) left = tail.length := by omega
  simp only [recvPass, RecvCache.reqHeaderOffset, hread, d.read_front ht, hhead,
    hlen, Nat.lt_irrefl, if_false, RecvCache.pHeader, hdec,
    hbegin, ne_eq, not_true, RecvCache.reqPayloadOffset, Option.getD_none, List.length_nil,
    Nat.sub_zero, List.nil_append, Delivery.length_read, bodyPass]

theorem recvPass_refuse (hhead : part ++ tail = head) (hlen : head.length = AMCReqHeader.size)
    (hbegin : (AMCReqHeader.decode (head.map val)).begin ≠ HEADER_BEGIN)
    (ht : d.bytes.drop pos = tail ++ rest) (hleft : tail.length ≤ left) :
    recvPass val d left pos ⟨part, none⟩ = .refuse := by
  have hsum := congrArg List.length hhead
  rw [List.length_append, hlen] at hsum
  have hread : min (AMCReqHeader.size - part.length) left = tail.length := by omega
  simp only [recvPass, RecvCache.reqHeaderOffset, hread, d.read_front ht, hhead,
    hlen, Nat.lt_irrefl, if_false, RecvCache.pHeader, if_pos hbegin]

theorem recvPass_part (ht : (part ++ d.bytes.drop pos).length < AMCReqHeader.size)
    (hleft : left = (d.bytes.drop pos).length) :
    recvPass val d left pos ⟨part, none⟩ = .wait ⟨part ++ d.bytes.drop pos, none⟩ := by
  rw [List.length_append] at ht
  have hread : min (AMCReqHeader.size - part.length) left = (d.bytes.drop pos).length := by omega
  have htake : d.read pos (d.bytes.drop pos).length = d.bytes.drop pos :=
    d.read_front (List.append_nil _).symm
  simp only [recvPass, RecvCache.reqHeaderOffset, hread, htake, List.length_append, if_pos ht]

theorem bodyPass_whole [DecidableEq α] {body : List α} (ht : d.bytes.drop pos = body ++ rest)
    (hbody : h.bodylen.toNat = body.length) (hlt : body.length < 2 ^ 31)
    (hleft : body.length ≤ left) : bodyPass d left pos h head =
      .dispatch (pos + body.length)
        ⟨h, head, if body = [] then none else some body, h.bodylen⟩ := by
  rw [bodyPass, hbody]
  by_cases hnil : body = []
  · simp [hnil]
  · have hpos : 0 < body.length := List.length_pos_iff.mpr hnil
    have hint : ¬ 2 ^ 31 ≤ body.length := by omega
    simp only [hpos, if_true, Nat.min_eq_left hleft, if_neg hint, Nat.lt_irrefl, if_false,
      d.read_front ht, if_neg hnil]

end Pass

end Hardcoder
