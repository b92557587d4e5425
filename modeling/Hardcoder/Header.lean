import Hardcoder.Lib.LittleEndian

/-! Request and response pack headers (header.h). The structs are packed, so a
header is the concatenation of its little-endian fields. Fields that the code
never assigns keep whatever the fresh heap block held; they are parameters. -/

namespace Hardcoder
open LittleEndian
set_option autoImplicit false

def HEADER_PROTOCAL_VERSION : BitVec 16 := 4
def HEADER_JSON_VERSION : BitVec 16 := 16

def HEADER_BODYFORMAT_PROTO : BitVec 32 := 2
def HEADER_BODYFORMAT_JSON : BitVec 32 := 3

/-- "HDCR" -/
def HEADER_BEGIN : BitVec 32 := 0x48444352

structure AMCReqHeader where
  begin : BitVec 32
  version : BitVec 16
  funcid : BitVec 16
  bodylen : BitVec 32
  requestid : BitVec 64
  callertid : BitVec 32
  timestamp : BitVec 64
deriving DecidableEq, Repr

namespace AMCReqHeader

/-- `sizeof(AMCReqHeader)` -/
def size : Nat := 32

def encode (h : AMCReqHeader) : List UInt8 :=
  word 4 h.begin ++ (word 2 h.version ++ (word 2 h.funcid ++ (word 4 h.bodylen ++
    (word 8 h.requestid ++ (word 4 h.callertid ++ word 8 h.timestamp)))))

/-- What a `reinterpret_cast<AMCReqHeader *>` reads from a buffer. -/
def decode (bs : List UInt8) : AMCReqHeader where
  begin := field 0 4 bs
  version := field 4 2 bs
  funcid := field 6 2 bs
  bodylen := field 8 4 bs
  requestid := field 12 8 bs
  callertid := field 20 4 bs
  timestamp := field 24 8 bs

@[simp] theorem length_encode (h : AMCReqHeader) : h.encode.length = size := by
  simp [encode, size]

theorem decode_encode_append (h : AMCReqHeader) (rest : List UInt8) :
    decode (h.encode ++ rest) = h := by
  cases h
  simp [decode, encode, field_skip, field_word]

@[simp] theorem decode_encode (h : AMCReqHeader) : decode h.encode = h := by
  simpa using decode_encode_append h []

end AMCReqHeader

structure AMCReqHeaderV2 extends AMCReqHeader where
  headerlen : BitVec 32
  bodyformat : BitVec 32
  data1 : BitVec 32
  data2 : BitVec 32
  data3 : BitVec 32
deriving DecidableEq, Repr

namespace AMCReqHeaderV2

def size : Nat := 52

def encode (h : AMCReqHeaderV2) : List UInt8 :=
  h.toAMCReqHeader.encode ++ (word 4 h.headerlen ++ (word 4 h.bodyformat ++
    (word 4 h.data1 ++ (word 4 h.data2 ++ word 4 h.data3))))

@[simp] theorem length_encode (h : AMCReqHeaderV2) : h.encode.length = size := by
  simp [encode, size, AMCReqHeader.size]

end AMCReqHeaderV2

structure AMCRespHeader where
  begin : BitVec 32
  version : BitVec 16
  funcid : BitVec 16
  retCode : BitVec 32
  bodylen : BitVec 32
  requestid : BitVec 64
  timestamp : BitVec 64
deriving DecidableEq, Repr

namespace AMCRespHeader

def size : Nat := 32

def encode (h : AMCRespHeader) : List UInt8 :=
  word 4 h.begin ++ (word 2 h.version ++ (word 2 h.funcid ++ (word 4 h.retCode ++
    (word 4 h.bodylen ++ (word 8 h.requestid ++ word 8 h.timestamp)))))

def decode (bs : List UInt8) : AMCRespHeader where
  begin := field 0 4 bs
  version := field 4 2 bs
  funcid := field 6 2 bs
  retCode := field 8 4 bs
  bodylen := field 12 4 bs
  requestid := field 16 8 bs
  timestamp := field 24 8 bs

@[simp] theorem length_encode (h : AMCRespHeader) : h.encode.length = size := by
  simp [encode, size]

theorem decode_encode_append (h : AMCRespHeader) (rest : List UInt8) :
    decode (h.encode ++ rest) = h := by
  cases h
  simp [decode, encode, field_skip, field_word]

theorem decode_encode (h : AMCRespHeader) : decode h.encode = h := by
  simpa using decode_encode_append h []

theorem encode_decode {bs : List UInt8} (h : bs.length = size) : (decode bs).encode = bs := by
  unfold size at h
  have hcut (n m : Nat) : (bs.drop n).take m ++ bs.drop (n + m) = bs.drop n := by
    rw [← List.drop_drop, List.take_append_drop]
  simp only [encode, decode]
  rw [word_field (by omega), word_field (by omega), word_field (by omega), word_field (by omega),
    word_field (by omega), word_field (by omega), word_field (by omega)]
  have hlast : (bs.drop 24).take 8 = bs.drop 24 := List.take_of_length_le (by simp [h])
  rw [hlast, hcut 16 8, hcut 12 4, hcut 8 4, hcut 6 2, hcut 4 2, hcut 0 4, List.drop_zero]

theorem head?_of_begin {bs : List UInt8} (h : bs.length = size)
    (hbegin : (decode bs).begin = HEADER_BEGIN) : bs.head? = some 0x52 := by
  rw [← encode_decode h, encode, hbegin]
  rfl

theorem decode_append {bs : List UInt8} (h : size ≤ bs.length) (rest : List UInt8) :
    decode (bs ++ rest) = decode bs := by
  unfold size at h
  simp only [decode, mk.injEq]
  refine ⟨?_, ?_, ?_, ?_, ?_, ?_, ?_⟩ <;> exact field_append _ _ _ _ (by omega)

end AMCRespHeader

structure AMCRespHeaderV2 extends AMCRespHeader where
  headerlen : BitVec 32
  bodyformat : BitVec 32
  data1 : BitVec 32
  data2 : BitVec 32
  data3 : BitVec 32
deriving DecidableEq, Repr

namespace AMCRespHeaderV2

def size : Nat := 52

def encode (h : AMCRespHeaderV2) : List UInt8 :=
  h.toAMCRespHeader.encode ++ (word 4 h.headerlen ++ (word 4 h.bodyformat ++
    (word 4 h.data1 ++ (word 4 h.data2 ++ word 4 h.data3))))

def decode (bs : List UInt8) : AMCRespHeaderV2 where
  toAMCRespHeader := AMCRespHeader.decode bs
  headerlen := field 32 4 bs
  bodyformat := field 36 4 bs
  data1 := field 40 4 bs
  data2 := field 44 4 bs
  data3 := field 48 4 bs

@[simp] theorem length_encode (h : AMCRespHeaderV2) : h.encode.length = size := by
  simp [encode, size, AMCRespHeader.size]

theorem decode_encode_append (h : AMCRespHeaderV2) (rest : List UInt8) :
    decode (h.encode ++ rest) = h := by
  obtain ⟨h, headerlen, bodyformat, data1, data2, data3⟩ := h
  have hbase := AMCRespHeader.decode_encode_append h (word 4 headerlen ++ (word 4 bodyformat ++
    (word 4 data1 ++ (word 4 data2 ++ (word 4 data3 ++ rest)))))
  simp [decode, encode, field_skip, field_word, hbase, AMCRespHeader.size]

end AMCRespHeaderV2

/-- The block `new uint8_t[..]` returns is not cleared; the reserved fields of a
version 2 header are never assigned, so they keep these words. -/
structure Uninit where
  data1 : BitVec 32
  data2 : BitVec 32
  data3 : BitVec 32
deriving DecidableEq, Repr

/-- `gettimeofday` -/
structure TimeVal where
  tv_sec : Int
  tv_usec : Int
deriving DecidableEq, Repr

/-- `clock_gettime` -/
structure TimeSpec where
  tv_sec : Int
  tv_nsec : Int
deriving DecidableEq, Repr

/-- Return value and out parameters of the two builders; an error leaves the
out parameters as they were. -/
structure GenPack where
  ret : Int
  outPack : Option (List UInt8)
  outLen : BitVec 32
deriving DecidableEq, Repr

def GenPack.error (ret : Int) : GenPack := ⟨ret, none, 0⟩

/-- The bytes `memcpy(buf, data, dataLen)` copies (none for `dataLen == 0`). -/
def copied (data : Option (List UInt8)) (dataLen : BitVec 32) : List UInt8 :=
  (data.getD []).take dataLen.toNat

def TimeVal.micros (now : TimeVal) : BitVec 64 := BitVec.ofInt 64 (now.tv_sec * 1000 * 1000 + now.tv_usec)

def TimeSpec.nanos (ts : TimeSpec) : BitVec 64 :=
  BitVec.ofInt 64 (ts.tv_sec * 1000 * 1000 * 1000 + ts.tv_nsec)

/-- The version 1 header both branches of `genReqPack` fill. -/
def reqHeader (HEADER_VERSION : BitVec 16) (now : TimeVal) (funcid dataLen callertid : BitVec 32)
    (timestamp : BitVec 64) : AMCReqHeader where
  begin := HEADER_BEGIN
  version := HEADER_VERSION
  funcid := funcid.setWidth 16
  bodylen := dataLen
  requestid := now.micros
  callertid := callertid
  timestamp := timestamp

def genReqPack (HEADER_VERSION : BitVec 16) (heap : Uninit) (now : TimeVal) (funcid : BitVec 32)
    (data : Option (List UInt8)) (dataLen : BitVec 32) (callertid : BitVec 32)
    (timestamp : BitVec 64) : GenPack :=
  if 0 < dataLen.toInt ∧ data = none then .error (-1)
  else if 65535 < funcid.toNat then .error (-2)
  else if HEADER_VERSION < HEADER_PROTOCAL_VERSION then .error (-1)
  else
    let header := reqHeader HEADER_VERSION now funcid dataLen callertid timestamp
    if HEADER_JSON_VERSION ≤ HEADER_VERSION then
      let header : AMCReqHeaderV2 :=
        { header with
          headerlen := BitVec.ofNat 32 AMCReqHeaderV2.size
          bodyformat := HEADER_BODYFORMAT_JSON
          data1 := heap.data1, data2 := heap.data2, data3 := heap.data3 }
      ⟨header.requestid.toInt, some (header.encode ++ copied data dataLen),
        dataLen + BitVec.ofNat 32 AMCReqHeaderV2.size⟩
    else
      ⟨header.requestid.toInt, some (header.encode ++ copied data dataLen),
        dataLen + BitVec.ofNat 32 AMCReqHeader.size⟩

def respHeader (HEADER_VERSION : BitVec 16) (ts : TimeSpec) (funcid retCode : BitVec 32)
    (requestId : BitVec 64) (dataLen : BitVec 32) : AMCRespHeader where
  begin := HEADER_BEGIN
  version := HEADER_VERSION
  funcid := funcid.setWidth 16
  retCode := retCode
  bodylen := dataLen
  requestid := requestId
  timestamp := ts.nanos

/-- The extension `genRespPack` appends from `HEADER_JSON_VERSION` on. -/
def respHeaderV2 (HEADER_VERSION : BitVec 16) (heap : Uninit) (ts : TimeSpec)
    (funcid retCode : BitVec 32) (requestId : BitVec 64) (dataLen : BitVec 32) : AMCRespHeaderV2 :=
  { respHeader HEADER_VERSION ts funcid retCode requestId dataLen with
    headerlen := BitVec.ofNat 32 AMCRespHeaderV2.size
    bodyformat := HEADER_BODYFORMAT_JSON
    data1 := heap.data1, data2 := heap.data2, data3 := heap.data3 }

def genRespPack (HEADER_VERSION : BitVec 16) (heap : Uninit) (ts : TimeSpec)
    (funcid retCode : BitVec 32) (requestId : BitVec 64)
    (data : Option (List UInt8)) (dataLen : BitVec 32) : GenPack :=
  if 65535 < funcid.toNat then .error (-2)
  else if HEADER_VERSION < HEADER_PROTOCAL_VERSION then .error (-1)
  else if HEADER_JSON_VERSION ≤ HEADER_VERSION then
    ⟨requestId.toInt,
      some ((respHeaderV2 HEADER_VERSION heap ts funcid retCode requestId dataLen).encode ++
        copied data dataLen),
      dataLen + BitVec.ofNat 32 AMCRespHeaderV2.size⟩
  else
    ⟨requestId.toInt,
      some ((respHeader HEADER_VERSION ts funcid retCode requestId dataLen).encode ++
        copied data dataLen),
      dataLen + BitVec.ofNat 32 AMCRespHeader.size⟩

end Hardcoder
