import Hardcoder.ClientTermination
import Hardcoder.ServerBounds
import Hardcoder.ServerFraming

/-! The copies of the client's `recvEvent`, and both parsers over any chunks they are
handed one after the other. -/

namespace Hardcoder
open Stream Runs
set_option autoImplicit false

namespace LocalsocketClient
section Passes
variable (d : Delivery UInt8)

/-- The copy of the payload: `shouldRead` is the smaller of two `int`s. -/
def payloadCopies (recvDataLeft recvDataOffset : Nat) (pHeader : AMCRespHeader) (st : RecvState) :
    List Copy :=
  let bodylen := pHeader.bodylen.toNat
  if bodylen = 0 then []
  else
    let missing := (((bodylen : Int) - st.respPayloadOffset) % 2 ^ 32).toNat
    let shouldRead := if 2 ^ 31 ≤ missing then missing else min missing recvDataLeft
    [⟨recvDataOffset, intLength shouldRead, st.respPayloadOffset, bodylen⟩]

def packCopies (recvDataLeft recvDataOffset : Nat) (st : RecvState) : List Copy :=
  let pHeader := AMCRespHeader.decode st.respHeaderBuf
  if pHeader.begin ≠ HEADER_BEGIN then []
  else if HEADER_JSON_VERSION ≤ pHeader.version then
    let recvDataLeft := d.bytes.length - recvDataOffset
    let shouldRead := min (AMCRespHeaderV2.size - st.respHeaderOffset) recvDataLeft
    let extension : Copy := ⟨recvDataOffset, shouldRead, st.respHeaderOffset, AMCRespHeaderV2.size⟩
    let st := st.fillHeader (d.read recvDataOffset shouldRead)
    extension :: payloadCopies recvDataLeft (recvDataOffset + shouldRead)
      (AMCRespHeaderV2.decode st.respHeaderBuf).toAMCRespHeader st
  else payloadCopies recvDataLeft recvDataOffset pHeader st

/-- The copies of one pass. -/
def passCopies (recvDataOffset : Nat) (st : RecvState) : List Copy :=
  let recvDataLeft := d.bytes.length - recvDataOffset
  let shouldRead := min (AMCRespHeader.size - st.respHeaderOffset) recvDataLeft
  let header : List Copy :=
    if st.respHeaderOffset < AMCRespHeader.size then
      [⟨recvDataOffset, shouldRead, st.respHeaderOffset, AMCRespHeaderV2.size⟩] else []
  let st := if st.respHeaderOffset < AMCRespHeader.size then
    st.fillHeader (d.read recvDataOffset shouldRead) else st
  let recvDataOffset := recvDataOffset + shouldRead
  if st.respHeaderOffset = AMCRespHeader.size then
    header ++ packCopies d recvDataLeft recvDataOffset st
  else header

/-- Neither the cursor nor an offset has passed its end, and neither do the copies of the pass. -/
structure PassInBounds (s : Nat × RecvState) : Prop where
  recvDataOffset : s.1 ≤ d.bytes.length
  header : s.2.respHeaderOffset ≤ AMCRespHeaderV2.size
  payload : s.2.respPayload.isSome → s.2.respPayloadOffset ≤ s.2.pHeader.bodylen.toNat
  copies : s.1 < d.bytes.length → ∀ c ∈ passCopies d s.1 s.2, c.InBounds d.bytes.length

/-- Of such bytes of packets, from the start of one on, a pass would read more than there are.
A version 2 header alone waits for what follows. -/
def overreads : Nat → List UInt8 → Bool
  | 0, _ => false
  | n + 1, bytes =>
    if bytes.length < AMCRespHeader.size then false
    else
      let pHeader := AMCRespHeader.decode (bytes.take AMCRespHeader.size)
      let rest := bytes.drop AMCRespHeader.size
      let extension := extensionOf pHeader rest
      if pHeader.begin ≠ HEADER_BEGIN then false
      else if HEADER_JSON_VERSION ≤ pHeader.version ∧ rest = [] ∧
          pHeader.bodylen.toNat < 2 ^ 31 then false
      else if rest.length < extension.length + pHeader.bodylen.toNat then true
      else overreads n (rest.drop (extension.length + pHeader.bodylen.toNat))

/-- What has come of a packet: less than a header, or the header of one of version 2 alone. -/
def Begun (part : List UInt8) : Prop :=
  part.length < AMCRespHeader.size ∨ part.length = AMCRespHeader.size ∧
    HEADER_JSON_VERSION ≤ (AMCRespHeader.decode part).version ∧
    (AMCRespHeader.decode part).bodylen.toNat < 2 ^ 31

variable {d}

theorem Begun.length_le {part : List UInt8} (h : Begun part) : part.length ≤ AMCRespHeader.size :=
  h.elim Nat.le_of_lt fun h => Nat.le_of_eq h.1

theorem begun_nil : Begun [] := .inl (Nat.zero_lt_succ 31)

theorem overreads_short {bytes : List UInt8} (h : bytes.length < AMCRespHeader.size) (n : Nat) :
    overreads n bytes = false := by
  cases n with
  | zero => rfl
  | succ n => rw [overreads, if_pos h]

theorem overreads_begun {part : List UInt8} (h : Begun part) (n : Nat) :
    overreads n part = false := by
  rcases h with hlt | ⟨hlen, hv, hbody⟩
  · exact overreads_short hlt n
  · cases n with
    | zero => rfl
    | succ n =>
      have htake : part.take AMCRespHeader.size = part := List.take_of_length_le hlen.le
      have hdrop : part.drop AMCRespHeader.size = [] := List.drop_eq_nil_of_le hlen.le
      rw [overreads, if_neg hlen.not_lt, htake, hdrop]
      dsimp only
      split
      · rfl
      · rw [if_pos ⟨hv, rfl, hbody⟩]

/-- Before a body only the copies can leave their bounds. -/
theorem passInBounds_iff {pos : Nat} {st : RecvState} {part : List UInt8} (h : Holds st part)
    (hbegun : Begun part) (hpos : pos ≤ d.bytes.length) :
    PassInBounds d (pos, st) ↔
      (pos < d.bytes.length → ∀ c ∈ passCopies d pos st, c.InBounds d.bytes.length) := by
  refine ⟨fun hin => hin.copies, fun hcopies => ⟨hpos, ?_, fun _ => ?_, hcopies⟩⟩
  · dsimp only
    rw [h.offset]
    exact hbegun.length_le.trans (Nat.le_add_right 32 20)
  · dsimp only
    rw [h.payloadOffset]
    exact Nat.zero_le _

theorem always_of_last {s : Nat × RecvState} (h : PassInBounds d s) (hlast : nextPass d s = none) :
    Always (nextPass d) (PassInBounds d) s := by
  refine always_iff.mpr ⟨h, fun t ht => ?_⟩
  rw [hlast] at ht
  cases ht

/-- The whole chunk has been read. -/
theorem always_end {st : RecvState} {part : List UInt8} (h : Holds st part)
    (hbegun : Begun part) : Always (nextPass d) (PassInBounds d) (d.bytes.length, st) := by
  refine always_of_last ?_ (if_pos (Nat.le_refl _))
  exact (passInBounds_iff h hbegun (Nat.le_refl _)).mpr fun hlt => absurd hlt (Nat.lt_irrefl _)

theorem nextPass_of_lt {pos : Nat} {st : RecvState} (hlt : pos < d.bytes.length) :
    nextPass d (pos, st) = (recvPass d pos st).resume := if_neg (Nat.not_le.mpr hlt)

theorem always_short {pos : Nat} {st : RecvState} {part : List UInt8} (h : Holds st part)
    (hpos : pos ≤ d.bytes.length)
    (hshort : (part ++ d.bytes.drop pos).length < AMCRespHeader.size) :
    Always (nextPass d) (PassInBounds d) (pos, st) := by
  have hlt := hshort
  rw [List.length_append, List.length_drop] at hlt
  have hpart : part.length < AMCRespHeader.size := by omega
  rcases Nat.eq_or_lt_of_le hpos with rfl | hmore
  · exact always_end h (.inl hpart)
  obtain ⟨hst, hpass⟩ := recvPass_part h d hpos hshort
  refine always_iff.mpr ⟨(passInBounds_iff h (.inl hpart) hpos).mpr fun _ c hc => ?_, fun t ht => ?_⟩
  · have hread : min (AMCRespHeader.size - part.length) (d.bytes.length - pos) =
        d.bytes.length - pos := by omega
    have hoff : (st.fillHeader (d.read pos (d.bytes.length - pos))).respHeaderOffset ≠
        AMCRespHeader.size := by
      change st.respHeaderOffset + (d.read pos _).length ≠ _
      rw [Delivery.length_read, h.offset]
      exact Nat.ne_of_lt hlt
    simp only [passCopies, h.offset, hread, if_pos hpart, if_neg hoff, List.mem_singleton] at hc
    rw [hc, Copy.InBounds]
    unfold AMCRespHeader.size at hlt
    unfold AMCRespHeaderV2.size
    exact ⟨by dsimp only; omega, by dsimp only; omega⟩
  · rw [nextPass_of_lt hmore, hpass] at ht
    obtain rfl := Option.some.inj ht
    exact always_end hst (.inl hshort)

theorem split_head {part t : List UInt8} (hle : part.length ≤ AMCRespHeader.size)
    (hlong : ¬ (part ++ t).length < AMCRespHeader.size) :
    ∃ tail rest head, t = tail ++ rest ∧ part ++ tail = head ∧
      head.length = AMCRespHeader.size := by
  rw [List.length_append] at hlong
  refine ⟨_, _, _, (List.take_append_drop (AMCRespHeader.size - part.length) t).symm, rfl, ?_⟩
  rw [List.length_append, List.length_take]
  omega

theorem payloadCopies_inBounds_iff {len left off : Nat} {pHeader : AMCRespHeader} {st : RecvState}
    (_ : len < 2 ^ 31) (hzero : st.respPayloadOffset = 0) (hoff : off ≤ len) :
    (∀ c ∈ payloadCopies left off pHeader st, c.InBounds len) ↔
      pHeader.bodylen.toNat < 2 ^ 31 ∧ off + min pHeader.bodylen.toNat left ≤ len := by
  have hmissing : (((pHeader.bodylen.toNat : Int) - (0 : Nat)) % 2 ^ 32).toNat =
      pHeader.bodylen.toNat := by
    have hword := pHeader.bodylen.isLt
    omega
  by_cases hbody : pHeader.bodylen.toNat = 0
  · rw [payloadCopies, if_pos hbody, hbody, Nat.zero_min]
    exact iff_of_true (fun _ hc => by cases hc) ⟨by omega, hoff⟩
  · simp only [payloadCopies, if_neg hbody, hzero, hmissing, List.forall_mem_singleton,
      Copy.InBounds]
    by_cases hneg : 2 ^ 31 ≤ pHeader.bodylen.toNat
    · rw [if_pos hneg, intLength, if_pos hneg]
      constructor <;> intro h <;> omega
    · rw [if_neg hneg, intLength, if_neg (by omega)]
      constructor <;> intro h <;> omega

section Whole
variable {pos : Nat} {st : RecvState} {part tail head rest : List UInt8} (h : Holds st part)
  (hhead : part ++ tail = head) (hlen : head.length = AMCRespHeader.size)
  (ht : d.bytes.drop pos = tail ++ rest)
include h hhead hlen ht

theorem passCopies_whole : passCopies d pos st =
    (if part.length < AMCRespHeader.size then
      [⟨pos, tail.length, part.length, AMCRespHeaderV2.size⟩] else []) ++
      packCopies d (tail.length + rest.length) (pos + tail.length) (st.fillHeader tail) := by
  obtain ⟨hleft, hsum, hread⟩ := header_read hhead hlen d ht
  have hoff : (st.fillHeader tail).respHeaderOffset = AMCRespHeader.size := by
    change st.respHeaderOffset + tail.length = _
    rw [h.offset, hsum]
  by_cases hpart : part.length < AMCRespHeader.size
  · simp only [passCopies, h.offset, hread, d.read_front ht]
    rw [if_pos hpart, if_pos hpart, if_pos hoff, hleft]
  · have htail : tail = [] := List.length_eq_zero_iff.mp (by omega)
    rw [htail, RecvState.fillHeader_nil] at hoff ⊢
    simp only [passCopies, h.offset, hread, htail, List.length_nil]
    rw [if_neg hpart, if_neg hpart, if_pos hoff, hleft, htail, List.length_nil]

theorem packCopies_refuse (hbegin : (AMCRespHeader.decode head).begin ≠ HEADER_BEGIN)
    (left off : Nat) : packCopies d left off (st.fillHeader tail) = [] := by
  have hdec := (recvPass_header h hhead hlen d ht).1.header (Nat.le_of_eq hlen.symm)
  simp only [packCopies, hdec, if_pos hbegin]

theorem packCopies_accept (hbegin : (AMCRespHeader.decode head).begin = HEADER_BEGIN)
    {st' : RecvState} {ext : List UInt8} (hext : ext = extensionOf (.decode head) rest)
    (hst' : st' = (st.fillHeader tail).fillHeader ext) :
    packCopies d (tail.length + rest.length) (pos + tail.length) (st.fillHeader tail) =
      (if HEADER_JSON_VERSION ≤ (AMCRespHeader.decode head).version then
        [⟨pos + tail.length, ext.length, AMCRespHeader.size, AMCRespHeaderV2.size⟩] else []) ++
        payloadCopies (staleLeft (.decode head) tail rest) (pos + tail.length + ext.length)
          (.decode head) st' := by
  have hst := (recvPass_header h hhead hlen d ht).1
  have hdec := hst.header (Nat.le_of_eq hlen.symm)
  by_cases hv : HEADER_JSON_VERSION ≤ (AMCRespHeader.decode head).version
  · obtain ⟨hleft, hextlen, hread, hfill, hbase⟩ := extension_read h hhead hlen d ht hv hext hst'
    simp only [packCopies, hdec, hbegin, ne_eq, not_true, if_false, if_pos hv, hst.offset, hlen,
      hleft, hextlen, hread, ← hst', hbase, staleLeft, List.singleton_append]
  · rw [extensionOf, if_neg hv] at hext
    rw [hext, RecvState.fillHeader_nil] at hst'
    simp only [packCopies, hdec, hbegin, ne_eq, not_true, if_false, if_neg hv, hst', hext,
      staleLeft, List.length_nil, Nat.add_zero, List.nil_append]

/-- Of the copies of a pass with a whole header, that of the payload alone may leave the chunk. -/
theorem passInBounds_accept (hsmall : d.bytes.length < 2 ^ 31) (hpos : pos < d.bytes.length)
    (hbegun : Begun part) (hbegin : (AMCRespHeader.decode head).begin = HEADER_BEGIN) :
    PassInBounds d (pos, st) ↔
      (HEADER_JSON_VERSION ≤ (AMCRespHeader.decode head).version ∧ rest = [] ∧
          (AMCRespHeader.decode head).bodylen.toNat < 2 ^ 31) ∨
        (extensionOf (.decode head) rest).length + (AMCRespHeader.decode head).bodylen.toNat ≤
          rest.length := by
  obtain ⟨htotal, hsum, -⟩ := header_read hhead hlen d ht
  obtain ⟨ext, hext⟩ : ∃ ext, ext = extensionOf (.decode head) rest := ⟨_, rfl⟩
  obtain ⟨st', hst'⟩ : ∃ st', st' = (st.fillHeader tail).fillHeader ext := ⟨_, rfl⟩
  have hzero : st'.respPayloadOffset = 0 := by
    rw [hst']
    exact h.payloadOffset
  have hfit : ext.length ≤ rest.length ∧ ext.length ≤ 20 := by
    rw [hext, extensionOf]
    split
    · rw [List.length_take, AMCRespHeaderV2.size, AMCRespHeader.size]
      omega
    · exact ⟨Nat.zero_le _, Nat.zero_le _⟩
  rw [passInBounds_iff h hbegun hpos.le, passCopies_whole h hhead hlen ht,
    packCopies_accept h hhead hlen ht hbegin hext hst', ← hext]
  have hcopies : (∀ c ∈ (if part.length < AMCRespHeader.size then
        [Copy.mk pos tail.length part.length AMCRespHeaderV2.size] else []) ++
      ((if HEADER_JSON_VERSION ≤ (AMCRespHeader.decode head).version then
        [Copy.mk (pos + tail.length) ext.length AMCRespHeader.size AMCRespHeaderV2.size] else []) ++
        payloadCopies (staleLeft (.decode head) tail rest) (pos + tail.length + ext.length)
          (.decode head) st'), c.InBounds d.bytes.length) ↔
      ∀ c ∈ payloadCopies (staleLeft (.decode head) tail rest) (pos + tail.length + ext.length)
        (.decode head) st', c.InBounds d.bytes.length := by
    refine ⟨fun hall c hc => hall c (List.mem_append_right _ (List.mem_append_right _ hc)),
      fun hall c hc => ?_⟩
    unfold AMCRespHeader.size at hsum
    rcases List.mem_append.mp hc with hc | hc
    · split at hc
      · obtain rfl := List.mem_singleton.mp hc
        rw [Copy.InBounds, AMCRespHeaderV2.size]
        exact ⟨by dsimp only; omega, by dsimp only; omega⟩
      · cases hc
    rcases List.mem_append.mp hc with hc | hc
    · split at hc
      · obtain rfl := List.mem_singleton.mp hc
        rw [Copy.InBounds, AMCRespHeaderV2.size, AMCRespHeader.size]
        exact ⟨by dsimp only; omega, by dsimp only; omega⟩
      · cases hc
    · exact hall c hc
  rw [hcopies, payloadCopies_inBounds_iff hsmall hzero (by omega), staleLeft]
  by_cases hv : HEADER_JSON_VERSION ≤ (AMCRespHeader.decode head).version
  · rw [if_pos hv]
    by_cases hnil : rest = []
    · have hnone : rest.length = 0 := List.length_eq_zero_iff.mpr hnil
      constructor
      · exact fun hin => .inl ⟨hv, hnil, (hin hpos).1⟩
      · rintro (⟨-, -, hbody⟩ | hbody) _
        · exact ⟨hbody, by omega⟩
        · exact ⟨by omega, by omega⟩
    · have hsome : 0 < ext.length := by
        have hpositive := List.length_pos_iff.mpr hnil
        rw [hext, extensionOf, if_pos hv, List.length_take, AMCRespHeaderV2.size,
          AMCRespHeader.size]
        omega
      constructor
      · intro hin
        have hbody := hin hpos
        exact .inr (by omega)
      · rintro (⟨-, hrest, -⟩ | hbody) _
        · exact absurd hrest hnil
        · exact ⟨by omega, by omega⟩
  · -- the header was completed in this pass
    have hpart : part.length < AMCRespHeader.size := by
      rcases hbegun with hlt | ⟨hall, hv', -⟩
      · exact hlt
      · have htail : tail = [] := List.length_eq_zero_iff.mp (by omega)
        rw [← hhead, htail, List.append_nil] at hv
        exact absurd hv' hv
    have hnone : ext.length = 0 := by
      rw [hext, extensionOf, if_neg hv]
      rfl
    rw [if_neg hv]
    constructor
    · intro hin
      have hbody := hin hpos
      exact .inr (by omega)
    · rintro (⟨hv', -⟩ | hbody) _
      · exact absurd hv' hv
      · exact ⟨by omega, by omega⟩

theorem always_refuse (hpos : pos < d.bytes.length) (hbegun : Begun part)
    (hbegin : (AMCRespHeader.decode head).begin ≠ HEADER_BEGIN) :
    Always (nextPass d) (PassInBounds d) (pos, st) := by
  have htotal := congrArg List.length ht
  rw [List.length_drop, List.length_append] at htotal
  have hsum := congrArg List.length hhead
  rw [List.length_append, hlen, AMCRespHeader.size] at hsum
  refine always_of_last ((passInBounds_iff h hbegun hpos.le).mpr fun _ c hc => ?_) ?_
  · rw [passCopies_whole h hhead hlen ht, packCopies_refuse h hhead hlen ht hbegin,
      List.append_nil] at hc
    split at hc
    · obtain rfl := List.mem_singleton.mp hc
      rw [Copy.InBounds, AMCRespHeaderV2.size]
      exact ⟨by dsimp only; omega, by dsimp only; omega⟩
    · cases hc
  · rw [nextPass_of_lt hpos, (recvPass_refuse h hhead hlen d ht hbegin).2]
    rfl

/-- All that the pass reads is in the chunk. -/
theorem recvPass_whole (hsmall : d.bytes.length < 2 ^ 31)
    (hbegin : (AMCRespHeader.decode head).begin = HEADER_BEGIN)
    (hbody : (extensionOf (.decode head) rest).length + (AMCRespHeader.decode head).bodylen.toNat ≤
      rest.length) :
    ∃ st' call, Holds st' [] ∧ recvPass d pos st =
      .callback (pos + tail.length + (extensionOf (.decode head) rest).length +
        (AMCRespHeader.decode head).bodylen.toNat) st' call := by
  have htotal := congrArg List.length ht
  rw [List.length_drop, List.length_append] at htotal
  obtain ⟨hst, hpass⟩ := recvPass_accept h hhead hlen d ht hbegin rfl rfl
  have hle : (AMCRespHeader.decode head).bodylen.toNat ≤
      staleLeft (.decode head) tail rest := by
    unfold staleLeft
    split <;> omega
  rw [hpass, (fillPayload_whole hst d _ _ (by omega) hle rfl).2]
  exact ⟨_, _, hst.restart, rfl⟩

/-- A version 2 header is all there is: the pass takes it, and calls back an empty body. -/
theorem recvPass_alone (hbegin : (AMCRespHeader.decode head).begin = HEADER_BEGIN)
    (hv : HEADER_JSON_VERSION ≤ (AMCRespHeader.decode head).version) (hnil : rest = [])
    (hbody : (AMCRespHeader.decode head).bodylen.toNat < 2 ^ 31) :
    ∃ st' part', Holds st' part' ∧ Begun part' ∧
      (recvPass d pos st).resume = some (pos + tail.length, st') := by
  obtain ⟨hst, hpass⟩ := recvPass_accept h hhead hlen d ht hbegin rfl rfl
  have hext : extensionOf (.decode head) rest = [] := by
    rw [extensionOf, if_pos hv, hnil, List.take_nil]
  rw [hext, RecvState.fillHeader_nil, List.append_nil] at hst
  rw [hext, RecvState.fillHeader_nil, staleLeft, if_pos hv, hnil, List.length_nil,
    Nat.add_zero] at hpass
  by_cases hzero : (AMCRespHeader.decode head).bodylen.toNat = 0
  · refine ⟨_, [], hst.restart, begun_nil, ?_⟩
    rw [hpass, (fillPayload_whole hst d _ _ hbody hzero.le rfl).2, hzero]
    rfl
  · refine ⟨{ st.fillHeader tail with respPayload := some [], respPayloadOffset := 0 }, head,
      ⟨hst.buf, hst.offset, rfl, rfl⟩, .inr ⟨hlen, hv, hbody⟩, ?_⟩
    rw [hpass, fillPayload_short hst d _ _ hbody (by omega)]
    rfl

theorem nextPass_whole (hsmall : d.bytes.length < 2 ^ 31) (hpos : pos < d.bytes.length)
    (hbegun : Begun part) (hbegin : (AMCRespHeader.decode head).begin = HEADER_BEGIN)
    (hin : PassInBounds d (pos, st)) :
    ∃ pos' st' part', Holds st' part' ∧ Begun part' ∧ pos < pos' ∧
      nextPass d (pos, st) = some (pos', st') := by
  obtain ⟨htotal, hsum, -⟩ := header_read hhead hlen d ht
  rw [nextPass_of_lt hpos]
  rcases (passInBounds_accept h hhead hlen ht hsmall hpos hbegun hbegin).mp hin with
    ⟨hv, hnil, hbody⟩ | hbody
  · obtain ⟨st', part', hst', hpart', hpass⟩ := recvPass_alone h hhead hlen ht hbegin hv hnil hbody
    rw [hnil, List.length_nil] at htotal
    exact ⟨_, st', part', hst', hpart', by omega, hpass⟩
  · obtain ⟨st', call, hst', hpass⟩ := recvPass_whole h hhead hlen ht hsmall hbegin hbody
    refine ⟨_, st', [], hst', begun_nil, ?_, by rw [hpass]; rfl⟩
    -- with a header from before, the pass takes a byte of the extension at least
    rcases hbegun with hlt | ⟨hall, hv, -⟩
    · omega
    · have htail : tail = [] := List.length_eq_zero_iff.mp (by omega)
      rw [htail, List.append_nil] at hhead
      rw [hhead] at hv
      rw [htail, List.length_nil] at htotal
      rw [extensionOf, if_pos hv, List.length_take, AMCRespHeaderV2.size, AMCRespHeader.size]
      omega

end Whole

/-- A pass within bounds ends the event or takes a byte at least. -/
theorem recvPass_inBounds (hsmall : d.bytes.length < 2 ^ 31) {pos : Nat} {st : RecvState}
    {part : List UInt8} (h : Holds st part) (hbegun : Begun part) (hpos : pos < d.bytes.length)
    (hin : PassInBounds d (pos, st)) :
    (∃ st', Holds st' [] ∧ recvPass d pos st = .refuse st') ∨
      ∃ pos' st' part', Holds st' part' ∧ Begun part' ∧ pos < pos' ∧
        nextPass d (pos, st) = some (pos', st') := by
  by_cases hshort : (part ++ d.bytes.drop pos).length < AMCRespHeader.size
  · obtain ⟨hst, hpass⟩ := recvPass_part h d hpos.le hshort
    refine .inr ⟨_, _, _, hst, .inl hshort, hpos, ?_⟩
    rw [nextPass_of_lt hpos, hpass]
    rfl
  · obtain ⟨tail, rest, head, ht, hhead, hsize⟩ := split_head hbegun.length_le hshort
    by_cases hbegin : (AMCRespHeader.decode head).begin = HEADER_BEGIN
    · exact .inr (nextPass_whole h hhead hsize ht hsmall hpos hbegun hbegin hin)
    · exact .inl ⟨_, recvPass_refuse h hhead hsize d ht hbegin⟩

/-- Exactly what more is announced of than the chunk has is read past its end. -/
theorem always_inBounds_iff (hsmall : d.bytes.length < 2 ^ 31) (n : Nat) :
    ∀ {pos : Nat} {st : RecvState} {part : List UInt8}, Holds st part → Begun part →
      pos ≤ d.bytes.length → (part ++ d.bytes.drop pos).length ≤ n →
      (Always (nextPass d) (PassInBounds d) (pos, st) ↔
        overreads n (part ++ d.bytes.drop pos) = false) := by
  induction n with
  | zero =>
    intro pos st part h _ hpos hn
    exact iff_of_true (always_short h hpos (Nat.lt_of_le_of_lt hn (Nat.zero_lt_succ 31))) rfl
  | succ n ih =>
    intro pos st part h hbegun hpos hn
    rcases Nat.eq_or_lt_of_le hpos with rfl | hmore
    · rw [List.drop_length, List.append_nil]
      exact iff_of_true (always_end h hbegun) (overreads_begun hbegun _)
    by_cases hshort : (part ++ d.bytes.drop pos).length < AMCRespHeader.size
    · exact iff_of_true (always_short h hpos hshort) (overreads_short hshort _)
    obtain ⟨tail, rest, head, ht, hhead, hsize⟩ := split_head hbegun.length_le hshort
    have hsplit : part ++ d.bytes.drop pos = head ++ rest := by
      rw [ht, ← List.append_assoc, hhead]
    have hiff (hbegin : (AMCRespHeader.decode head).begin = HEADER_BEGIN) :=
      passInBounds_accept h hhead hsize ht hsmall hmore hbegun hbegin
    rw [hsplit] at hn hshort ⊢
    rw [overreads, if_neg hshort, List.take_left' hsize, List.drop_left' hsize]
    dsimp only
    by_cases hbegin : (AMCRespHeader.decode head).begin = HEADER_BEGIN
    · rw [if_neg (not_not.mpr hbegin)]
      have hiff := hiff hbegin
      have htotal := congrArg List.length ht
      rw [List.length_drop, List.length_append] at htotal
      split
      · rename_i halone
        obtain ⟨st', part', hst', hpart', hnext⟩ :=
          recvPass_alone h hhead hsize ht hbegin halone.1 halone.2.1 halone.2.2
        rw [halone.2.1, List.length_nil] at htotal
        have hend : pos + tail.length = d.bytes.length := by omega
        refine iff_of_true (always_iff.mpr ⟨hiff.mpr (.inl halone), fun t htnext => ?_⟩) rfl
        rw [nextPass_of_lt hmore, hnext, hend] at htnext
        obtain rfl := Option.some.inj htnext
        exact always_end hst' hpart'
      · rename_i halone
        split
        · rename_i hbody
          refine iff_of_false (fun hall => ?_) Bool.noConfusion
          rcases hiff.mp (always_iff.mp hall).1 with h' | h'
          · exact halone h'
          · omega
        · rename_i hbody
          have hle := Nat.le_of_not_lt hbody
          obtain ⟨st', call, hst', hpass⟩ := recvPass_whole h hhead hsize ht hsmall hbegin hle
          have hnext := (nextPass_of_lt hmore).trans (congrArg Pass.resume hpass)
          have hdrop : d.bytes.drop (pos + tail.length + (extensionOf (.decode head) rest).length +
              (AMCRespHeader.decode head).bodylen.toNat) =
              rest.drop ((extensionOf (.decode head) rest).length +
                (AMCRespHeader.decode head).bodylen.toNat) := by
            rw [← List.drop_drop, ← List.drop_drop, drop_add_of_drop ht, List.drop_drop]
          rw [List.length_append, hsize] at hn
          have hpos' : pos + tail.length + (extensionOf (.decode head) rest).length +
              (AMCRespHeader.decode head).bodylen.toNat ≤ d.bytes.length := by omega
          have hn' : (rest.drop ((extensionOf (.decode head) rest).length +
              (AMCRespHeader.decode head).bodylen.toNat)).length ≤ n := by
            rw [List.length_drop]
            unfold AMCRespHeader.size at hn
            omega
          rw [← hdrop, ← List.nil_append (d.bytes.drop _)] at hn'
          rw [← hdrop, ← List.nil_append (d.bytes.drop _), ← ih hst' begun_nil hpos' hn', always_iff]
          constructor
          · exact fun hall => hall.2 _ hnext
          · refine fun hall => ⟨hiff.mpr (.inr hle), fun t htnext => ?_⟩
            obtain rfl := Option.some.inj (hnext.symm.trans htnext)
            exact hall
    · rw [if_pos hbegin]
      exact iff_of_true (always_refuse h hhead hsize ht hmore hbegun hbegin) rfl

theorem recvLoop_begun (hsmall : d.bytes.length < 2 ^ 31) {fuel : Nat} :
    ∀ {pos : Nat} {st : RecvState} {part : List UInt8}, Holds st part → Begun part →
      d.bytes.length - pos < fuel → Always (nextPass d) (PassInBounds d) (pos, st) →
      ∃ r part', recvLoop d fuel pos st = some r ∧ Holds r.st part' ∧ Begun part' := by
  induction fuel with
  | zero =>
    intro pos st part _ _ hfuel
    omega
  | succ fuel ih =>
    intro pos st part h hbegun hfuel hall
    rw [recvLoop]
    by_cases hend : d.bytes.length ≤ pos
    · exact ⟨_, part, if_pos hend, h, hbegun⟩
    rw [if_neg hend]
    have hpos := Nat.lt_of_not_le hend
    obtain ⟨hin, hnext⟩ := always_iff.mp hall
    rcases recvPass_inBounds hsmall h hbegun hpos hin with
      ⟨st', hst', hpass⟩ | ⟨pos', st', part', hst', hpart', hlt, hpass⟩
    · rw [hpass]
      exact ⟨_, [], rfl, hst', begun_nil⟩
    · obtain ⟨r, part'', hr, hrest⟩ := ih hst' hpart' (by omega) (hnext _ hpass)
      rw [nextPass_of_lt hpos] at hpass
      cases heq : recvPass d pos st with
      | next off state =>
        rw [heq] at hpass
        obtain ⟨rfl, rfl⟩ := Prod.mk.inj (Option.some.inj hpass)
        exact ⟨r, part'', hr, hrest⟩
      | callback off state call =>
        rw [heq] at hpass
        obtain ⟨rfl, rfl⟩ := Prod.mk.inj (Option.some.inj hpass)
        refine ⟨{ r with calls := call :: r.calls }, part'', ?_, hrest⟩
        dsimp only
        rw [hr]
        rfl
      | refuse state =>
        rw [heq] at hpass
        cases hpass
      | fault =>
        rw [heq] at hpass
        cases hpass

end Passes

/-- Every pass of the event stays in the chunk. -/
def InBounds (st : RecvState) (d : Received UInt8) : Prop :=
  Always (nextPass d.toDelivery) (PassInBounds d.toDelivery) (0, st)

/-- An `EVENT_DATA`. -/
def dataEvent (st : RecvState) (d : Received UInt8) : Option RecvState :=
  (recvEvent (d.bytes.length + 1) st d.toDelivery).map (·.st)

/-- What has come of packets not yet complete. -/
def pending (st : RecvState) (d : Received UInt8) : List UInt8 :=
  st.respHeaderBuf.take st.respHeaderOffset ++ d.bytes

/-- Every packet with a payload that the parser begins to read is all in the chunk. -/
def PayloadsWhole (st : RecvState) (d : Received UInt8) : Prop :=
  overreads (pending st d).length (pending st d) = false

instance (st : RecvState) (d : Received UInt8) : Decidable (PayloadsWhole st d) :=
  inferInstanceAs (Decidable (_ = false))

/-- No more has come of a packet than its header. -/
def HoldsBegun (st : RecvState) : Prop := ∃ part, Holds st part ∧ Begun part

theorem Holds.pending {st : RecvState} {part : List UInt8} (h : Holds st part) (d : Received UInt8) :
    pending st d = part ++ d.bytes.drop 0 := by
  obtain ⟨junk, hbuf, -⟩ := h.buf
  rw [LocalsocketClient.pending, hbuf, h.offset, List.take_left, List.drop_zero]

theorem inBounds_iff_payloadsWhole {st : RecvState} (h : HoldsBegun st) (d : Received UInt8) :
    InBounds st d ↔ PayloadsWhole st d := by
  obtain ⟨part, hst, hpart⟩ := h
  rw [PayloadsWhole, hst.pending]
  exact always_inBounds_iff d.len_lt _ hst hpart (Nat.zero_le _) (Nat.le_refl _)

theorem dataEvent_inBounds {st : RecvState} (h : HoldsBegun st) {d : Received UInt8}
    (hin : InBounds st d) : ∃ st', dataEvent st d = some st' ∧ HoldsBegun st' := by
  obtain ⟨part, hst, hpart⟩ := h
  obtain ⟨r, part', hr, hrest⟩ := recvLoop_begun d.len_lt hst hpart (Nat.lt_succ_self _) hin
  refine ⟨r.st, ?_, part', hrest⟩
  rw [dataEvent, recvEvent]
  exact Option.map_eq_some_iff.mpr ⟨r, hr, rfl⟩

end LocalsocketClient

/-- In any events of a server's descriptor and of a client, every pass stays in its chunk
exactly when no request ends in its body, and no response that the client begins to read
the payload of is cut. -/
theorem recvEvent_inBounds_iff {buf : List UInt8} (hbuf : buf.length = AMCRespHeaderV2.size)
    (requests responses : List (Received UInt8)) :
    (Along (LocalSocketServer.dataEvent id) (LocalSocketServer.InBounds id) none requests ↔
      Along (LocalSocketServer.dataEvent id) (LocalSocketServer.EndsOutsideBody id) none
        requests) ∧
    (Along LocalsocketClient.dataEvent LocalsocketClient.InBounds (.new buf) responses ↔
      Along LocalsocketClient.dataEvent LocalsocketClient.PayloadsWhole (.new buf) responses) := by
  constructor
  · refine @along_congr _ _ _ _ _ (LocalSocketServer.CleanOf fun _ => True) ?_ ?_ _ _
      (LocalSocketServer.cleanOf_none _)
    · intro cache d cache' h hin hevent
      obtain ⟨t, ht, hinv⟩ := LocalSocketServer.dataEvent_inBounds h hin
      obtain rfl := Option.some.inj (ht.symm.trans hevent)
      exact hinv
    · exact fun h => LocalSocketServer.inBounds_iff_endsOutsideBody h
  · refine @along_congr _ _ _ _ _ LocalsocketClient.HoldsBegun ?_ ?_ _ _
      ⟨[], LocalsocketClient.holds_new hbuf, LocalsocketClient.begun_nil⟩
    · intro st d st' h hin hevent
      obtain ⟨t, ht, hinv⟩ := LocalsocketClient.dataEvent_inBounds h hin
      obtain rfl := Option.some.inj (ht.symm.trans hevent)
      exact hinv
    · exact fun h => LocalsocketClient.inBounds_iff_payloadsWhole h _

/-- A packet whose header is cut, and one whose body is. -/
theorem recvEvent_inBounds_iff_cutHeader :
    Along (LocalSocketServer.dataEvent id) (LocalSocketServer.InBounds id) none
      [⟨⟨(oneByteRequest.pack HEADER_PROTOCAL_VERSION).take 20, fun _ => 0⟩, by decide⟩,
        ⟨⟨(oneByteRequest.pack HEADER_PROTOCAL_VERSION).drop 20, fun _ => 0⟩, by decide⟩] ∧
    Along LocalsocketClient.dataEvent LocalsocketClient.InBounds
      (.new (List.replicate AMCRespHeaderV2.size 0))
      [⟨⟨LocalsocketClient.eightBytePack.take 32, fun _ => 0⟩, by decide⟩,
        ⟨⟨LocalsocketClient.eightBytePack.drop 32, fun _ => 0⟩, by decide⟩] := by
  have h := @recvEvent_inBounds_iff (List.replicate AMCRespHeaderV2.size 0) List.length_replicate
  exact ⟨(h _ []).1.mpr (along_of_check (by decide)), (h [] _).2.mpr (along_of_check (by decide))⟩

/-- The header of a packet that has a body comes alone: the body is read from behind it. -/
theorem recvEvent_outOfBounds :
    ¬ Along (LocalSocketServer.dataEvent id) (LocalSocketServer.InBounds id) none
      [⟨⟨(oneByteRequest.header HEADER_PROTOCAL_VERSION).encode, fun _ => 0⟩, by decide⟩] ∧
    ¬ Along LocalsocketClient.dataEvent LocalsocketClient.InBounds
      (.new (List.replicate AMCRespHeaderV2.size 0))
      [⟨⟨(LocalsocketClient.eightByteResponse.header HEADER_PROTOCAL_VERSION).encode,
        fun _ => 0⟩, by decide⟩] := by
  constructor
  · intro h
    have hout := (always_iff.mp h.1).1.copies (by decide) ⟨32, 1, 0, 1⟩ (by decide)
    exact absurd hout.1 (by decide)
  · intro h
    have hout := (always_iff.mp h.1).1.copies (by decide) ⟨32, 8, 0, 8⟩ (by decide)
    exact absurd hout.1 (by decide)

end Hardcoder
