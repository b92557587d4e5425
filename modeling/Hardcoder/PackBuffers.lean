import Hardcoder.Header

/-! The two builders of header.h on the block that `new uint8_t[totalLen]` returns: which
of its earlier contents are in the packet. -/

namespace Hardcoder
open LittleEndian
set_option autoImplicit false

/-- A block of `totalLen` bytes as the heap held them. -/
def newBlock (heap : Nat → UInt8) (totalLen : BitVec 32) : List UInt8 :=
  (List.range totalLen.toNat).map heap

/-- `data` has the `dataLen` bytes that are to be copied, if there are any. -/
def Copies (data : Option (List UInt8)) (dataLen : BitVec 32) : Prop :=
  dataLen = 0 ∨ (0 < dataLen.toInt ∧ ∃ bs, data = some bs ∧ dataLen.toNat ≤ bs.length)

instance (data : Option (List UInt8)) (dataLen : BitVec 32) : Decidable (Copies data dataLen) :=
  match data with
  | none => decidable_of_iff (dataLen = 0) (by simp [Copies])
  | some bs => decidable_of_iff (dataLen = 0 ∨ (0 < dataLen.toInt ∧ dataLen.toNat ≤ bs.length))
      (by simp [Copies])

/-- `if (dataLen) memcpy(buf + off, data, dataLen)`, undefined when `data` has fewer bytes. -/
def copyBody (buf : List UInt8) (off : Nat) (data : Option (List UInt8)) (dataLen : BitVec 32) :
    Option (List UInt8) :=
  if Copies data dataLen then
    let body := copied data dataLen
    some (buf.take off ++ (body ++ buf.drop (off + body.length)))
  else none

namespace AMCReqHeaderV2

def decode (bs : List UInt8) : AMCReqHeaderV2 where
  toAMCReqHeader := AMCReqHeader.decode bs
  headerlen := field 32 4 bs
  bodyformat := field 36 4 bs
  data1 := field 40 4 bs
  data2 := field 44 4 bs
  data3 := field 48 4 bs

theorem decode_encode_append (h : AMCReqHeaderV2) (rest : List UInt8) :
    decode (h.encode ++ rest) = h := by
  obtain ⟨h, headerlen, bodyformat, data1, data2, data3⟩ := h
  have hbase := AMCReqHeader.decode_encode_append h (word 4 headerlen ++ (word 4 bodyformat ++
    (word 4 data1 ++ (word 4 data2 ++ (word 4 data3 ++ rest)))))
  simp [decode, encode, field_skip, field_word, hbase, AMCReqHeader.size]

end AMCReqHeaderV2

/-- The fields of `header` are assigned in place, the others stay as the block had them. -/
def genReqPackIn (heap : Nat → UInt8) (HEADER_VERSION : BitVec 16) (now : TimeVal)
    (funcid : BitVec 32) (data : Option (List UInt8)) (dataLen : BitVec 32) (callertid : BitVec 32)
    (timestamp : BitVec 64) : Option GenPack :=
  if 0 < dataLen.toInt ∧ data = none then some (.error (-1))
  else if 65535 < funcid.toNat then some (.error (-2))
  else if HEADER_VERSION < HEADER_PROTOCAL_VERSION then some (.error (-1))
  else if HEADER_JSON_VERSION ≤ HEADER_VERSION then
    let totalLen := dataLen + BitVec.ofNat 32 AMCReqHeaderV2.size
    let buf := newBlock heap totalLen
    let header :=
      { AMCReqHeaderV2.decode buf with
        begin := HEADER_BEGIN
        version := HEADER_VERSION
        funcid := funcid.setWidth 16
        bodylen := dataLen
        callertid := callertid
        timestamp := timestamp
        headerlen := BitVec.ofNat 32 AMCReqHeaderV2.size
        bodyformat := HEADER_BODYFORMAT_JSON
        requestid := now.micros }
    let buf := header.encode ++ buf.drop AMCReqHeaderV2.size
    (copyBody buf AMCReqHeaderV2.size data dataLen).map fun buf =>
      ⟨header.requestid.toInt, some buf, totalLen⟩
  else
    let totalLen := dataLen + BitVec.ofNat 32 AMCReqHeader.size
    let buf := newBlock heap totalLen
    let header :=
      { AMCReqHeader.decode buf with
        begin := HEADER_BEGIN
        version := HEADER_VERSION
        funcid := funcid.setWidth 16
        bodylen := dataLen
        callertid := callertid
        timestamp := timestamp
        requestid := now.micros }
    let buf := header.encode ++ buf.drop AMCReqHeader.size
    (copyBody buf AMCReqHeader.size data dataLen).map fun buf =>
      ⟨header.requestid.toInt, some buf, totalLen⟩

def genRespPackIn (heap : Nat → UInt8) (HEADER_VERSION : BitVec 16) (ts : TimeSpec)
    (funcid retCode : BitVec 32) (requestId : BitVec 64) (data : Option (List UInt8))
    (dataLen : BitVec 32) : Option GenPack :=
  if 65535 < funcid.toNat then some (.error (-2))
  else if HEADER_VERSION < HEADER_PROTOCAL_VERSION then some (.error (-1))
  else if HEADER_JSON_VERSION ≤ HEADER_VERSION then
    let totalLen := dataLen + BitVec.ofNat 32 AMCRespHeaderV2.size
    let buf := newBlock heap totalLen
    let p :=
      { AMCRespHeaderV2.decode buf with
        retCode := retCode
        requestid := requestId
        funcid := funcid.setWidth 16
        bodylen := dataLen
        timestamp := ts.nanos
        begin := HEADER_BEGIN
        version := HEADER_VERSION
        headerlen := BitVec.ofNat 32 AMCRespHeaderV2.size
        bodyformat := HEADER_BODYFORMAT_JSON }
    let buf := p.encode ++ buf.drop AMCRespHeaderV2.size
    (copyBody buf AMCRespHeaderV2.size data dataLen).map fun buf =>
      ⟨requestId.toInt, some buf, totalLen⟩
  else
    let totalLen := dataLen + BitVec.ofNat 32 AMCRespHeader.size
    let buf := newBlock heap totalLen
    let p :=
      { AMCRespHeader.decode buf with
        retCode := retCode
        requestid := requestId
        funcid := funcid.setWidth 16
        bodylen := dataLen
        timestamp := ts.nanos
        begin := HEADER_BEGIN
        version := HEADER_VERSION }
    let buf := p.encode ++ buf.drop AMCRespHeader.size
    (copyBody buf AMCRespHeader.size data dataLen).map fun buf =>
      ⟨requestId.toInt, some buf, totalLen⟩

/-! ### The packet is the header, with what the block held in its reserved fields, and the body -/

/-- The words of the reserved fields, which are at the same place in both headers. -/
def reserved (heap : Nat → UInt8) : Uninit :=
  let bs := (List.range AMCReqHeaderV2.size).map heap
  ⟨field 40 4 bs, field 44 4 bs, field 48 4 bs⟩

theorem copies_lt {data : Option (List UInt8)} {dataLen : BitVec 32} (h : Copies data dataLen) :
    dataLen.toNat < 2 ^ 31 := by
  rcases h with rfl | ⟨hpos, -⟩
  · decide
  · have hcases := BitVec.toInt_eq_toNat_cond dataLen
    have hlt := dataLen.isLt
    split at hcases <;> omega

theorem length_copied {data : Option (List UInt8)} {dataLen : BitVec 32} (h : Copies data dataLen) :
    (copied data dataLen).length = dataLen.toNat := by
  rcases h with rfl | ⟨-, bs, rfl, hlen⟩
  · exact List.length_take.trans (Nat.zero_min _)
  · rw [copied, Option.getD_some, List.length_take, Nat.min_eq_left hlen]

theorem toNat_totalLen {data : Option (List UInt8)} {dataLen : BitVec 32} (h : Copies data dataLen)
    {size : Nat} (hsize : size ≤ 52) : (dataLen + BitVec.ofNat 32 size).toNat = size + dataLen.toNat := by
  have hlt := copies_lt h
  rw [BitVec.toNat_add, BitVec.toNat_ofNat]
  omega

/-- The body comes behind the header, and nothing of the block behind the body. -/
theorem copyBody_behind {data : Option (List UInt8)} {dataLen : BitVec 32} (h : Copies data dataLen)
    (heap : Nat → UInt8) {header : List UInt8} {size : Nat} (hheader : header.length = size)
    (hsize : size ≤ 52) :
    copyBody (header ++ (newBlock heap (dataLen + BitVec.ofNat 32 size)).drop size) size data dataLen =
      some (header ++ copied data dataLen) := by
  subst hheader
  have hlen : (newBlock heap (dataLen + BitVec.ofNat 32 header.length)).length =
      header.length + dataLen.toNat := by
    rw [newBlock, List.length_map, List.length_range, toNat_totalLen h hsize]
  generalize newBlock heap (dataLen + BitVec.ofNat 32 header.length) = buf at hlen
  have hrest : (header ++ buf.drop header.length).drop (header.length + (copied data dataLen).length) =
      [] := by
    apply List.drop_eq_nil_of_le
    rw [List.length_append, List.length_drop, length_copied h]
    omega
  rw [copyBody, if_pos h]
  simp only [hrest, List.take_left, List.append_nil]

theorem copyBody_of_not {data : Option (List UInt8)} {dataLen : BitVec 32} (h : ¬ Copies data dataLen)
    (buf : List UInt8) (off : Nat) : copyBody buf off data dataLen = none := if_neg h

/-- The block is long enough for the whole header. -/
theorem reserved_newBlock {data : Option (List UInt8)} {dataLen : BitVec 32} (h : Copies data dataLen)
    (heap : Nat → UInt8) {buf : List UInt8} (hbuf : buf = newBlock heap (dataLen + BitVec.ofNat 32 52)) :
    reserved heap = ⟨field 40 4 buf, field 44 4 buf, field 48 4 buf⟩ := by
  have htake : buf.take 52 = (List.range 52).map heap := by
    have hmin : min 52 (52 + dataLen.toNat) = 52 := Nat.min_eq_left (Nat.le_add_right _ _)
    rw [hbuf, newBlock, ← List.map_take, List.take_range, toNat_totalLen h (Nat.le_refl 52), hmin]
  have hfield (off : Nat) (hoff : off + 4 ≤ 52) :
      field off 4 ((List.range 52).map heap) = field off 4 buf := by
    have hlen : off + 4 ≤ ((List.range 52).map heap).length := by
      rwa [List.length_map, List.length_range]
    rw [← field_append off 4 _ (buf.drop 52) hlen, ← htake, List.take_append_drop]
  rw [← hfield 40 (by decide), ← hfield 44 (by decide), ← hfield 48 (by decide)]
  rfl

section Builders
variable (heap : Nat → UInt8) (HEADER_VERSION : BitVec 16) (now : TimeVal) (ts : TimeSpec)
  (funcid retCode : BitVec 32) (requestId : BitVec 64) (data : Option (List UInt8))
  (dataLen callertid : BitVec 32) (timestamp : BitVec 64)

variable {data dataLen} in
theorem genReqPackIn_of_copies (h : Copies data dataLen) :
    genReqPackIn heap HEADER_VERSION now funcid data dataLen callertid timestamp =
      some (genReqPack HEADER_VERSION (reserved heap) now funcid data dataLen callertid timestamp) := by
  unfold genReqPackIn genReqPack
  split
  · rfl
  split
  · rfl
  split
  · rfl
  split
  · have hcopy (header : AMCReqHeaderV2) :=
      copyBody_behind h heap header.length_encode (Nat.le_refl AMCReqHeaderV2.size)
    simp only [hcopy, Option.map_some]
    rw [reserved_newBlock h heap rfl]
    rfl
  · have hcopy (header : AMCReqHeader) :=
      copyBody_behind h heap header.length_encode (by decide)
    simp only [hcopy, Option.map_some]
    rfl

variable {data dataLen} in
theorem genRespPackIn_of_copies (h : Copies data dataLen) :
    genRespPackIn heap HEADER_VERSION ts funcid retCode requestId data dataLen =
      some (genRespPack HEADER_VERSION (reserved heap) ts funcid retCode requestId data dataLen) := by
  unfold genRespPackIn genRespPack
  split
  · rfl
  split
  · rfl
  split
  · have hcopy (header : AMCRespHeaderV2) :=
      copyBody_behind h heap header.length_encode (Nat.le_refl AMCRespHeaderV2.size)
    simp only [hcopy, Option.map_some]
    rw [reserved_newBlock h heap rfl]
    rfl
  · have hcopy (header : AMCRespHeader) :=
      copyBody_behind h heap header.length_encode (by decide)
    simp only [hcopy, Option.map_some]
    rfl

variable {data dataLen} in
/-- Without the bytes to copy no packet is made. -/
theorem packIn_of_not_copies (h : ¬ Copies data dataLen) (heap' : Nat → UInt8) :
    genReqPackIn heap HEADER_VERSION now funcid data dataLen callertid timestamp =
        genReqPackIn heap' HEADER_VERSION now funcid data dataLen callertid timestamp ∧
      genRespPackIn heap HEADER_VERSION ts funcid retCode requestId data dataLen =
        genRespPackIn heap' HEADER_VERSION ts funcid retCode requestId data dataLen := by
  constructor
  · simp only [genReqPackIn, copyBody_of_not h, Option.map_none]
  · simp only [genRespPackIn, copyBody_of_not h, Option.map_none]

/-- Both builders make the packet of a version with reserved fields. -/
def HasReserved (HEADER_VERSION : BitVec 16) (funcid : BitVec 32) : Prop :=
  HEADER_JSON_VERSION ≤ HEADER_VERSION ∧ funcid.toNat ≤ 65535

variable {HEADER_VERSION funcid} in
theorem genReqPack_of_not_hasReserved (h : ¬ HasReserved HEADER_VERSION funcid) (block block' : Uninit) :
    genReqPack HEADER_VERSION block now funcid data dataLen callertid timestamp =
      genReqPack HEADER_VERSION block' now funcid data dataLen callertid timestamp := by
  unfold genReqPack
  split
  · rfl
  split
  · rfl
  rename_i hfuncid
  split
  · rfl
  rw [if_neg fun hversion => h ⟨hversion, Nat.not_lt.mp hfuncid⟩,
    if_neg fun hversion => h ⟨hversion, Nat.not_lt.mp hfuncid⟩]

variable {HEADER_VERSION funcid} in
theorem genRespPack_of_not_hasReserved (h : ¬ HasReserved HEADER_VERSION funcid) (block block' : Uninit) :
    genRespPack HEADER_VERSION block ts funcid retCode requestId data dataLen =
      genRespPack HEADER_VERSION block' ts funcid retCode requestId data dataLen := by
  unfold genRespPack
  split
  · rfl
  rename_i hfuncid
  split
  · rfl
  rw [if_neg fun hversion => h ⟨hversion, Nat.not_lt.mp hfuncid⟩,
    if_neg fun hversion => h ⟨hversion, Nat.not_lt.mp hfuncid⟩]

theorem not_lt_of_json {HEADER_VERSION : BitVec 16} (h : HEADER_JSON_VERSION ≤ HEADER_VERSION) :
    ¬ HEADER_VERSION < HEADER_PROTOCAL_VERSION := by
  have hle : HEADER_PROTOCAL_VERSION ≤ HEADER_JSON_VERSION := by decide
  exact BitVec.not_lt.mpr (BitVec.le_trans hle h)

variable {HEADER_VERSION funcid data dataLen} in
theorem genReqPack_block_inj (h : HasReserved HEADER_VERSION funcid) (hcopies : Copies data dataLen)
    {block block' : Uninit}
    (heq : genReqPack HEADER_VERSION block now funcid data dataLen callertid timestamp =
      genReqPack HEADER_VERSION block' now funcid data dataLen callertid timestamp) :
    block = block' := by
  have hdata : ¬ (0 < dataLen.toInt ∧ data = none) := by
    rintro ⟨hpos, rfl⟩
    rcases hcopies with rfl | ⟨-, bs, hbs, -⟩
    · exact absurd hpos (by decide)
    · cases hbs
  unfold genReqPack at heq
  rw [if_neg hdata, if_neg (Nat.not_lt.mpr h.2), if_neg (not_lt_of_json h.1), if_pos h.1,
    if_neg hdata, if_neg (Nat.not_lt.mpr h.2), if_neg (not_lt_of_json h.1), if_pos h.1] at heq
  have hbytes := Option.some.inj (congrArg GenPack.outPack heq)
  have hheader := congrArg AMCReqHeaderV2.decode hbytes
  rw [AMCReqHeaderV2.decode_encode_append, AMCReqHeaderV2.decode_encode_append] at hheader
  cases block
  cases block'
  simpa using hheader

variable {HEADER_VERSION funcid} in
theorem genRespPack_block_inj (h : HasReserved HEADER_VERSION funcid) {block block' : Uninit}
    (heq : genRespPack HEADER_VERSION block ts funcid retCode requestId data dataLen =
      genRespPack HEADER_VERSION block' ts funcid retCode requestId data dataLen) :
    block = block' := by
  unfold genRespPack at heq
  rw [if_neg (Nat.not_lt.mpr h.2), if_neg (not_lt_of_json h.1), if_pos h.1,
    if_neg (Nat.not_lt.mpr h.2), if_neg (not_lt_of_json h.1), if_pos h.1] at heq
  have hbytes := Option.some.inj (congrArg GenPack.outPack heq)
  have hheader := congrArg AMCRespHeaderV2.decode hbytes
  rw [AMCRespHeaderV2.decode_encode_append, AMCRespHeaderV2.decode_encode_append] at hheader
  cases block
  cases block'
  simpa [respHeaderV2] using hheader

/-- Blocks with different bytes at the places of the reserved fields. -/
theorem exists_reserved_ne : ∃ heap heap', reserved heap ≠ reserved heap' :=
  ⟨fun _ => 0, fun _ => 255, by decide⟩

/-- A packet is the same on every block exactly when it has no reserved fields. -/
theorem packs_determined_iff :
    ((∀ heap heap', genReqPackIn heap HEADER_VERSION now funcid data dataLen callertid timestamp =
        genReqPackIn heap' HEADER_VERSION now funcid data dataLen callertid timestamp) ↔
      ¬ (HasReserved HEADER_VERSION funcid ∧ Copies data dataLen)) ∧
    ((∀ heap heap', genRespPackIn heap HEADER_VERSION ts funcid retCode requestId data dataLen =
        genRespPackIn heap' HEADER_VERSION ts funcid retCode requestId data dataLen) ↔
      ¬ (HasReserved HEADER_VERSION funcid ∧ Copies data dataLen)) := by
  obtain ⟨heap, heap', hne⟩ := exists_reserved_ne
  refine ⟨⟨fun hsame ⟨hreserved, hcopies⟩ => ?_, fun hcondition heap heap' => ?_⟩,
    ⟨fun hsame ⟨hreserved, hcopies⟩ => ?_, fun hcondition heap heap' => ?_⟩⟩
  · have heq := hsame heap heap'
    rw [genReqPackIn_of_copies _ _ _ _ _ _ hcopies, genReqPackIn_of_copies _ _ _ _ _ _ hcopies] at heq
    exact hne (genReqPack_block_inj _ _ _ hreserved hcopies (Option.some.inj heq))
  · by_cases hcopies : Copies data dataLen
    · rw [genReqPackIn_of_copies _ _ _ _ _ _ hcopies, genReqPackIn_of_copies _ _ _ _ _ _ hcopies,
        genReqPack_of_not_hasReserved _ _ _ _ _ fun hreserved => hcondition ⟨hreserved, hcopies⟩]
    · exact (packIn_of_not_copies heap _ now ts funcid retCode requestId callertid timestamp hcopies
        heap').1
  · have heq := hsame heap heap'
    rw [genRespPackIn_of_copies _ _ _ _ _ _ hcopies, genRespPackIn_of_copies _ _ _ _ _ _ hcopies] at heq
    exact hne (genRespPack_block_inj _ _ _ _ _ hreserved (Option.some.inj heq))
  · by_cases hcopies : Copies data dataLen
    · rw [genRespPackIn_of_copies _ _ _ _ _ _ hcopies, genRespPackIn_of_copies _ _ _ _ _ _ hcopies,
        genRespPack_of_not_hasReserved _ _ _ _ _ fun hreserved => hcondition ⟨hreserved, hcopies⟩]
    · exact (packIn_of_not_copies heap _ now ts funcid retCode requestId callertid timestamp hcopies
        heap').2

end Builders

/-- An empty request and its response, with version 16, on blocks that held 0 and 255. -/
theorem packs_not_determined :
    ¬ (∀ heap heap', genReqPackIn heap HEADER_JSON_VERSION ⟨0, 0⟩ 10 none 0 7 9 =
        genReqPackIn heap' HEADER_JSON_VERSION ⟨0, 0⟩ 10 none 0 7 9) ∧
    ¬ (∀ heap heap', genRespPackIn heap HEADER_JSON_VERSION ⟨0, 0⟩ 10 0 7 none 0 =
        genRespPackIn heap' HEADER_JSON_VERSION ⟨0, 0⟩ 10 0 7 none 0) :=
  ⟨fun h => absurd (h (fun _ => 0) fun _ => 255) (by decide),
    fun h => absurd (h (fun _ => 0) fun _ => 255) (by decide)⟩

end Hardcoder
