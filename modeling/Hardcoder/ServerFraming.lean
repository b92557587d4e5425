import Hardcoder.ServerReceive

/-! Request packets on a stream: what `recvEvent` makes of the concatenated output
of `genReqPack`, cut into chunks anywhere. -/

namespace Hardcoder
open Stream
set_option autoImplicit false

/-- The arguments of a `genReqPack` call it accepts: a function id of 16 bits and
a body an `int` can measure, behind a pointer that is null only for no body. -/
structure Request where
  funcid : BitVec 32
  data : Option (List UInt8)
  callertid : BitVec 32
  timestamp : BitVec 64
  now : TimeVal
  heap : Uninit
  funcid_le : funcid.toNat ≤ 65535
  data_lt : (data.getD []).length < 2 ^ 31

namespace Request

def body (r : Request) : List UInt8 := r.data.getD []

def dataLen (r : Request) : BitVec 32 := BitVec.ofNat 32 r.body.length

def genPack (HEADER_VERSION : BitVec 16) (r : Request) : GenPack :=
  genReqPack HEADER_VERSION r.heap r.now r.funcid r.data r.dataLen r.callertid r.timestamp

def pack (HEADER_VERSION : BitVec 16) (r : Request) : List UInt8 :=
  (r.genPack HEADER_VERSION).outPack.getD []

def header (HEADER_VERSION : BitVec 16) (r : Request) : AMCReqHeader :=
  reqHeader HEADER_VERSION r.now r.funcid r.dataLen r.callertid r.timestamp

/-- The `processReceive` call the request is to become. -/
def frame (HEADER_VERSION : BitVec 16) (r : Request) : ReqFrame UInt8 :=
  ⟨r.header HEADER_VERSION, (r.header HEADER_VERSION).encode,
    if r.body = [] then none else some r.body, r.dataLen⟩

theorem toNat_dataLen (r : Request) : r.dataLen.toNat = r.body.length := by
  have h := r.data_lt
  simp only [dataLen, BitVec.toNat_ofNat, body]
  omega

theorem copied_body (r : Request) : copied r.data r.dataLen = r.body := by
  rw [copied, toNat_dataLen]
  exact List.take_length

theorem null_empty (r : Request) : ¬ (0 < r.dataLen.toInt ∧ r.data = none) := by
  rintro ⟨hpos, hnull⟩
  simp [dataLen, body, hnull] at hpos

theorem genPack_eq {v : BitVec 16} (hlo : HEADER_PROTOCAL_VERSION ≤ v)
    (hhi : v < HEADER_JSON_VERSION) (r : Request) :
    r.genPack v = ⟨(r.header v).requestid.toInt, some ((r.header v).encode ++ r.body),
      r.dataLen + BitVec.ofNat 32 AMCReqHeader.size⟩ := by
  have hf := r.funcid_le
  rw [genPack, genReqPack, if_neg r.null_empty, if_neg (by omega),
    if_neg (BitVec.not_lt.mpr hlo), if_neg (BitVec.not_le.mpr hhi), copied_body]
  rfl

theorem pack_eq {v : BitVec 16} (hlo : HEADER_PROTOCAL_VERSION ≤ v) (hhi : v < HEADER_JSON_VERSION)
    (r : Request) : r.pack v = (r.header v).encode ++ r.body := by
  rw [pack, genPack_eq hlo hhi, Option.getD_some]

theorem length_pack {v : BitVec 16} (hlo : HEADER_PROTOCAL_VERSION ≤ v)
    (hhi : v < HEADER_JSON_VERSION) (r : Request) :
    (r.pack v).length = AMCReqHeader.size + r.body.length := by
  simp [pack_eq hlo hhi]

@[simp] theorem header_begin (v : BitVec 16) (r : Request) : (r.header v).begin = HEADER_BEGIN := rfl

@[simp] theorem header_bodylen (v : BitVec 16) (r : Request) : (r.header v).bodylen = r.dataLen := rfl

end Request

/-- A chunk handed over by one event: `int recvDataLen` of it, and not empty. -/
structure Chunk where
  bytes : List UInt8
  ne_nil : bytes ≠ []
  len_lt : bytes.length < 2 ^ 31

section Encoded
variable (h : AMCReqHeader) (hbegin : h.begin = HEADER_BEGIN) (d : Delivery UInt8)
  {pos left : Nat} {part tail : List UInt8} (henc : part ++ tail = h.encode)
include hbegin henc

theorem recvPass_encode {rest : List UInt8} (ht : d.bytes.drop pos = tail ++ rest)
    (hleft : tail.length ≤ left) :
    recvPass id d left pos ⟨part, none⟩ = bodyPass d left (pos + tail.length) h h.encode :=
  recvPass_header d henc h.length_encode (by simp) hbegin ht hleft

theorem recvPass_whole {body rest : List UInt8} (ht : d.bytes.drop pos = tail ++ (body ++ rest))
    (hbody : h.bodylen.toNat = body.length) (hlt : body.length < 2 ^ 31)
    (hleft : left = tail.length + (body.length + rest.length)) :
    recvPass id d left pos ⟨part, none⟩ =
      .dispatch (pos + tail.length + body.length)
        ⟨h, h.encode, if body = [] then none else some body, h.bodylen⟩ := by
  rw [recvPass_encode h hbegin d henc ht (by omega)]
  exact bodyPass_whole d (drop_add_of_drop ht) hbody hlt (by omega)

end Encoded

/-- The cache entry of a connection that has sent `part` of a header. -/
def headerCache (part : List UInt8) : Option (RecvCache UInt8) :=
  if part = [] then none else some ⟨part, none⟩

@[simp] theorem headerCache_nil : headerCache [] = none := rfl

@[simp] theorem headerCache_getD (part : List UInt8) :
    (headerCache part).getD .new = ⟨part, none⟩ := by
  unfold headerCache
  split
  · simp_all [RecvCache.new]
  · rfl

section Frames
variable {v : BitVec 16} (hlo : HEADER_PROTOCAL_VERSION ≤ v) (hhi : v < HEADER_JSON_VERSION)
include hlo hhi

theorem pack_split (r : Request) {part t rest : List UInt8} (hpart : part.length < AMCReqHeader.size)
    (heq : part ++ t = r.pack v ++ rest) :
    ∃ tail, part ++ tail = (r.header v).encode ∧ tail ≠ [] ∧ t = tail ++ (r.body ++ rest) := by
  rw [Request.pack_eq hlo hhi, List.append_assoc] at heq
  have hle : part.length ≤ (r.header v).encode.length := by
    rw [AMCReqHeader.length_encode]
    omega
  obtain ⟨tail, htail⟩ : part <+: (r.header v).encode :=
    List.prefix_of_prefix_length_le ⟨t, heq⟩ (List.prefix_append _ _) hle
  refine ⟨tail, htail, ?_, ?_⟩
  · rintro rfl
    have hlen := congrArg List.length htail
    simp only [List.append_nil, AMCReqHeader.length_encode] at hlen
    omega
  · rw [← htail, List.append_assoc] at heq
    exact List.append_cancel_left heq

theorem recvLoop_done (d : Delivery UInt8) (hlen : d.bytes.length < 2 ^ 31) (done : List Request)
    {xs : List UInt8} :
    ∀ {pos : Nat} {part : List UInt8}, pos ≤ d.bytes.length → part.length < AMCReqHeader.size →
      part ++ d.bytes.drop pos = wire (Request.pack v) done ++ xs →
      ∃ pos' part', pos' ≤ d.bytes.length ∧ part'.length < AMCReqHeader.size ∧
        part' ++ d.bytes.drop pos' = xs ∧ ∀ fuel,
        recvLoop id d (fuel + done.length) pos (headerCache part) =
          (recvLoop id d fuel pos' (headerCache part')).map fun r =>
            { r with frames := done.map (Request.frame v) ++ r.frames } := by
  induction done with
  | nil =>
    intro pos part hpos hpart heq
    refine ⟨pos, part, hpos, hpart, heq, fun fuel => ?_⟩
    simp
  | cons r done ih =>
    intro pos part hpos hpart heq
    rw [wire_cons, List.append_assoc] at heq
    obtain ⟨tail, htail, hne, ht⟩ := pack_split hlo hhi r hpart heq
    have htl : 0 < tail.length := List.length_pos_iff.mpr hne
    have hsum := congrArg List.length ht
    simp only [List.length_append, List.length_drop] at hsum
    have hdrop : d.bytes.drop (pos + tail.length + r.body.length) =
        wire (Request.pack v) done ++ xs :=
      drop_add_of_drop (drop_add_of_drop ht)
    have hnil : ([] : List UInt8).length < AMCReqHeader.size := by decide
    obtain ⟨pos', part', hpos', hpart', hxs, hrun⟩ :=
      @ih (pos + tail.length + r.body.length) [] (by omega) hnil hdrop
    refine ⟨pos', part', hpos', hpart', hxs, fun fuel => ?_⟩
    rw [List.length_cons, ← Nat.add_assoc, recvLoop, readLeft_eq hpos hlen, if_neg (by omega),
      headerCache_getD, recvPass_whole (r.header v) (r.header_begin v) d htail ht r.toNat_dataLen
        r.data_lt (by rw [hsum]; simp only [List.length_append])]
    rw [headerCache_nil] at hrun
    simp only [hrun, Option.map_map, List.map_cons, List.cons_append]
    rfl

/-- A chunk that ends at a packet's end or inside a header: the packets it
completes are handed on, and the begun header is kept. -/
theorem recvLoop_frames (d : Delivery UInt8) (hlen : d.bytes.length < 2 ^ 31) (done : List Request)
    {part part' : List UInt8} (hpart : part.length < AMCReqHeader.size)
    (hpart' : part'.length < AMCReqHeader.size)
    (heq : part ++ d.bytes = wire (Request.pack v) done ++ part') :
    recvEvent id (done.length + 1) (headerCache part) d =
      some ⟨0, headerCache part', done.map (Request.frame v)⟩ := by
  obtain ⟨pos, h, hpos, hh, hxs, hrun⟩ :=
    recvLoop_done hlo hhi d hlen done (Nat.zero_le _) hpart heq
  rw [recvEvent, Nat.add_comm, hrun 1, recvLoop, readLeft_eq hpos hlen, ← List.length_drop]
  by_cases hend : d.bytes.drop pos = []
  · have hsame : h = part' := by simpa [hend] using hxs
    simp [hend, hsame]
  · have hne : part' ≠ [] := by
      rw [← hxs]
      simp [hend]
    rw [if_neg (mt List.length_eq_zero_iff.mp hend), headerCache_getD,
      recvPass_part d (by rw [hxs]; exact hpart') rfl, hxs]
    simp [headerCache, hne]

end Frames

theorem recvLoop_mono {α : Type} {val : α → UInt8} (d : Delivery α) {fuel fuel' : Nat}
    (hle : fuel ≤ fuel') : ∀ {pos : Nat} {cache : Option (RecvCache α)} {r : RecvResult α},
      recvLoop val d fuel pos cache = some r → recvLoop val d fuel' pos cache = some r := by
  induction fuel generalizing fuel' with
  | zero =>
    intro pos cache r h
    simp [recvLoop] at h
  | succ fuel ih =>
    intro pos cache r h
    obtain ⟨fuel', rfl⟩ : ∃ n, fuel' = n + 1 := ⟨fuel' - 1, by omega⟩
    rw [recvLoop] at h ⊢
    split
    · rw [if_pos ‹_›] at h
      exact h
    · rw [if_neg ‹_›] at h
      cases hp : recvPass val d (readLeft d.bytes.length pos) pos (cache.getD .new) with
      | wait c => simpa [hp] using h
      | refuse => simpa [hp] using h
      | fault => simp [hp] at h
      | dispatch pos' f =>
        rw [hp] at h
        obtain ⟨r', hr', rfl⟩ := Option.map_eq_some_iff.mp h
        simp [ih (Nat.le_of_succ_le_succ hle) hr']

/-- Bytes that are not the body's have been stored as part of it. -/
def Corrupt (r : Request) (v : BitVec 16) (cache : Option (RecvCache UInt8)) : Prop :=
  ∃ p, cache = some ⟨(r.header v).encode, some p⟩ ∧ p.length < r.body.length ∧ ¬ p <+: r.body

/-- The request's call is still out and can only come with a wrong payload, or
came with one. -/
def Lost (r : Request) (v : BitVec 16) (cache : Option (RecvCache UInt8))
    (frames : List (ReqFrame UInt8)) : Prop :=
  (frames = [] ∧ Corrupt r v cache) ∨
    ∃ f fs, frames = f :: fs ∧ f.payload.getD [] ≠ r.body

theorem not_front_append {p q body : List UInt8} (h : ¬ p <+: body) : ¬ p ++ q <+: body :=
  fun hpre => h ((List.prefix_append p q).trans hpre)

theorem recvPass_corrupt {v : BitVec 16} (r : Request) (d : Delivery UInt8) (left pos : Nat)
    {p : List UInt8} (hlt : p.length < r.body.length) (hp : ¬ p <+: r.body) :
    (∃ c, recvPass id d left pos ⟨(r.header v).encode, some p⟩ = .wait c ∧ Corrupt r v (some c)) ∨
    recvPass id d left pos ⟨(r.header v).encode, some p⟩ = .fault ∨
    ∃ pos' f, recvPass id d left pos ⟨(r.header v).encode, some p⟩ = .dispatch pos' f ∧
      f.payload.getD [] ≠ r.body := by
  have hdecode : AMCReqHeader.decode (r.header v).encode = r.header v := (r.header v).decode_encode
  have hbody := r.toNat_dataLen
  have hlt' : p.length < r.dataLen.toNat := by rw [hbody]; exact hlt
  simp only [recvPass, RecvCache.reqHeaderOffset, AMCReqHeader.length_encode, Nat.sub_self,
    Nat.zero_min, Delivery.read_zero, List.append_nil, Nat.lt_irrefl, if_false, RecvCache.pHeader,
    List.map_id, hdecode, Request.header_begin, ne_eq, not_true, RecvCache.reqPayloadOffset,
    Option.getD_some, Request.header_bodylen, hlt', if_true, Nat.add_zero]
  generalize min (r.dataLen.toNat - p.length) left = shouldRead
  split
  · exact .inr (.inl rfl)
  · split
    · rename_i hshort
      rw [hbody] at hshort
      exact .inl ⟨_, rfl, _, rfl, hshort, not_front_append hp⟩
    · refine .inr (.inr ⟨_, _, rfl, fun heq => ?_⟩)
      exact not_front_append hp ⟨[], by simpa using heq⟩

theorem recvEvent_corrupt {v : BitVec 16} (r : Request) (d : Delivery UInt8) {fuel : Nat}
    {cache : Option (RecvCache UInt8)} {res : RecvResult UInt8} (hc : Corrupt r v cache)
    (h : recvEvent id fuel cache d = some res) : Lost r v res.cache res.frames := by
  obtain ⟨p, rfl, hlt, hp⟩ := hc
  cases fuel with
  | zero => simp [recvEvent, recvLoop] at h
  | succ fuel =>
    rw [recvEvent, recvLoop, Option.getD_some] at h
    split at h
    · obtain rfl := Option.some.inj h
      exact .inl ⟨rfl, p, rfl, hlt, hp⟩
    · rcases recvPass_corrupt (v := v) r d (readLeft d.bytes.length 0) 0 hlt hp with
        ⟨c, hpass, hc⟩ | hpass | ⟨pos', f, hpass, hf⟩
      · simp only [hpass, Option.some.injEq] at h
        subst h
        exact .inl ⟨rfl, hc⟩
      · simp [hpass] at h
      · simp only [hpass] at h
        obtain ⟨r', -, rfl⟩ := Option.map_eq_some_iff.mp h
        exact .inr ⟨f, r'.frames, rfl, hf⟩

theorem recvEvents_lost {v : BitVec 16} (r : Request) {fuel : Nat} (ds : List (Delivery UInt8)) :
    ∀ {cache cache' : Option (RecvCache UInt8)} {fs : List (ReqFrame UInt8)}, Corrupt r v cache →
      recvEvents id fuel cache ds = some (cache', fs) → Lost r v cache' fs := by
  induction ds with
  | nil =>
    intro cache cache' fs hc h
    obtain ⟨rfl, rfl⟩ : cache = cache' ∧ [] = fs := by simpa [recvEvents] using h
    exact .inl ⟨rfl, hc⟩
  | cons d ds ih =>
    intro cache cache' fs hc h
    obtain ⟨res, hres, h⟩ := Option.bind_eq_some_iff.mp h
    obtain ⟨⟨c, gs⟩, hrest, heq⟩ := Option.map_eq_some_iff.mp h
    obtain ⟨rfl, rfl⟩ := Prod.mk.inj heq
    rcases recvEvent_corrupt r d hc hres with ⟨hnil, hc'⟩ | ⟨f, fs, hcons, hf⟩
    · simpa [hnil] using ih hc' hrest
    · exact .inr ⟨f, fs ++ gs, by simp [hcons], hf⟩

theorem Lost.ne_frame {v : BitVec 16} {r : Request} {cache : Option (RecvCache UInt8)}
    {fs gs : List (ReqFrame UInt8)} (h : Lost r v cache fs) : fs ≠ r.frame v :: gs := by
  rcases h with ⟨rfl, -⟩ | ⟨f, fs, rfl, hf⟩
  · simp
  · intro heq
    obtain ⟨rfl, -⟩ := List.cons.inj heq
    apply hf
    by_cases hnil : r.body = [] <;> simp [Request.frame, hnil]

section Frames
variable {v : BitVec 16} (hlo : HEADER_PROTOCAL_VERSION ≤ v) (hhi : v < HEADER_JSON_VERSION)
include hlo hhi

theorem recvEvent_overread (d : Delivery UInt8) (hlen : d.bytes.length < 2 ^ 31)
    (done : List Request) (r : Request) {part got lost : List UInt8}
    (hpart : part.length < AMCReqHeader.size)
    (heq : part ++ d.bytes = wire (Request.pack v) done ++ ((r.header v).encode ++ got))
    (hbody : got ++ lost = r.body) (hne : lost ≠ []) (hlost : lost.head? ≠ some (d.beyond 0))
    {fuel : Nat} {res : RecvResult UInt8} (h : recvEvent id fuel (headerCache part) d = some res) :
    ∃ extra, res.frames = done.map (Request.frame v) ++ extra ∧ Lost r v res.cache extra := by
  obtain ⟨pos, part', hpos, hpart', hxs, hrun⟩ :=
    recvLoop_done hlo hhi d hlen done (Nat.zero_le _) hpart heq
  have hmono := recvLoop_mono d (Nat.le_add_right fuel (1 + done.length)) h
  rw [← Nat.add_assoc, hrun (fuel + 1)] at hmono
  obtain ⟨res', hres', rfl⟩ := Option.map_eq_some_iff.mp hmono
  refine ⟨res'.frames, rfl, ?_⟩
  have hle : part'.length ≤ (r.header v).encode.length := by
    rw [AMCReqHeader.length_encode]
    omega
  obtain ⟨tail, htail⟩ : part' <+: (r.header v).encode :=
    List.prefix_of_prefix_length_le ⟨_, hxs⟩ (List.prefix_append _ _) hle
  have hdrop : d.bytes.drop pos = tail ++ got := by
    rw [← htail, List.append_assoc] at hxs
    exact List.append_cancel_left hxs
  have hsum := congrArg List.length hdrop
  have htl := congrArg List.length htail
  have hbl := congrArg List.length hbody
  have hlostpos : 0 < lost.length := List.length_pos_iff.mpr hne
  simp only [List.length_append, List.length_drop, AMCReqHeader.length_encode] at hsum htl hbl
  have hdata : r.body.length < 2 ^ 31 := r.data_lt
  rw [recvLoop, readLeft_eq hpos hlen, if_neg (by omega), headerCache_getD,
    recvPass_encode (r.header v) (r.header_begin v) d htail hdrop (by omega), bodyPass,
    Request.header_bodylen, r.toNat_dataLen, if_pos (by omega)] at hres'
  -- more is copied than the chunk holds: `readLeft` still counts the header bytes
  have hmore : got.length < min r.body.length (d.bytes.length - pos) := by omega
  have hwrong : ¬ d.read (pos + tail.length) (min r.body.length (d.bytes.length - pos)) <+: r.body := by
    have hend : d.bytes.length - (pos + tail.length) = got.length := by omega
    refine d.read_not_front (by omega) (by omega) ?_
    rw [hend, ← hbody, List.getElem?_append_right (Nat.le_refl _), Nat.sub_self,
      ← List.head?_eq_getElem?]
    exact hlost
  rw [if_neg (by omega)] at hres'
  split at hres'
  · rename_i heqp
    split at heqp
    · rename_i hshort
      obtain rfl := Pass.wait.inj heqp
      obtain rfl := Option.some.inj hres'
      exact .inl ⟨rfl, _, rfl, by simpa using hshort, hwrong⟩
    · cases heqp
  · rename_i heqp
    split at heqp <;> cases heqp
  · cases hres'
  · rename_i heqp
    split at heqp
    · cases heqp
    · obtain ⟨rfl, rfl⟩ := Pass.dispatch.inj heqp
      obtain ⟨res'', -, rfl⟩ := Option.map_eq_some_iff.mp hres'
      refine .inr ⟨_, _, rfl, fun heqb => hwrong ?_⟩
      exact ⟨[], by simpa using heqb⟩

end Frames

/-- A cut behind a packet's header; before the packet's end it is one in its body. -/
def inBody (_ : Request) (_ : List Request) (n : Nat) : Prop := AMCReqHeader.size ≤ n

abbrev packSize (v : BitVec 16) (r : Request) : Nat := (r.pack v).length

/-- `processReceive` has been called for exactly the requests `rs`, in order. -/
def ServerFramed (v : BitVec 16) (rs : List Request) (ds : List (Delivery UInt8)) : Prop :=
  ∃ fuel cache, recvEvents id fuel none ds = some (cache, rs.map (Request.frame v))

section Frames
variable {v : BitVec 16} (hlo : HEADER_PROTOCAL_VERSION ≤ v) (hhi : v < HEADER_JSON_VERSION)
include hlo hhi

theorem recvEvents_framed (ds : List (Delivery UInt8)) (hds : ∀ d ∈ ds, d.bytes.length < 2 ^ 31) :
    ∀ {part : List UInt8} {rs : List Request}, part.length < AMCReqHeader.size →
      part ++ (ds.map (·.bytes)).flatten = wire (Request.pack v) rs →
      NoCut (packSize v) inBody part.length rs (ds.map (·.bytes.length)) → ∀ fuel, rs.length < fuel →
      ∃ cache, recvEvents id fuel (headerCache part) ds = some (cache, rs.map (Request.frame v)) := by
  induction ds with
  | nil =>
    intro part rs hpart heq _ fuel _
    cases rs with
    | nil => exact ⟨headerCache part, rfl⟩
    | cons r rs =>
      have hlen := congrArg List.length heq
      simp only [List.map_nil, List.flatten_nil, List.append_nil, wire_cons, List.length_append,
        Request.length_pack hlo hhi] at hlen
      omega
  | cons d ds ih =>
    intro part rs hpart heq hcut fuel hfuel
    rw [List.map_cons, List.flatten_cons, ← List.append_assoc] at heq
    obtain ⟨done, rest, part', rfl, hsplit, hbegun⟩ := exists_cut (Request.pack v) heq
    have hlen : part.length + d.bytes.length = (done.map (packSize v)).sum + part'.length := by
      simpa [length_wire, packSize] using congrArg List.length hsplit
    have hpart' : part'.length < AMCReqHeader.size := by
      cases rest with
      | nil =>
        have hnil : part' = [] := hbegun
        rw [hnil]
        decide
      | cons r rest =>
        have hout := hcut.head (n := part'.length) hlen hbegun.1
        unfold inBody at hout
        omega
    rw [hsplit, wire_append, List.append_assoc, List.append_cancel_left_eq] at heq
    have hlt : d.bytes.length < 2 ^ 31 := hds d List.mem_cons_self
    rw [List.length_append] at hfuel
    obtain ⟨cache, hrest⟩ := ih (fun d' hd' => hds d' (List.mem_cons_of_mem d hd')) hpart' heq
      (hcut.tail hlen) fuel (by omega)
    have hfirst := recvLoop_mono d (by omega : done.length + 1 ≤ fuel)
      (recvLoop_frames hlo hhi d hlt done hpart hpart' hsplit)
    refine ⟨cache, ?_⟩
    rw [recvEvents, recvEvent, hfirst, Option.bind_some, hrest]
    simp

/-- Where some chunk ends in a body, the memory behind the first such chunk may
hold bytes that become part of a request, or that a request waits for in vain. -/
theorem exists_misread (cs : List (List UInt8)) (hcs : ∀ c ∈ cs, c.length < 2 ^ 31) :
    ∀ {part : List UInt8} {rs : List Request}, part.length < AMCReqHeader.size →
      part ++ cs.flatten = wire (Request.pack v) rs →
      ¬ NoCut (packSize v) inBody part.length rs (cs.map List.length) →
      ∃ ds : List (Delivery UInt8), ds.map (·.bytes) = cs ∧ ∀ fuel cache,
        recvEvents id fuel (headerCache part) ds ≠ some (cache, rs.map (Request.frame v)) := by
  induction cs with
  | nil =>
    intro part rs hpart heq hcut
    refine absurd (fun lens₁ lens₂ fs₁ f fs₂ n hlens hfs hn hlt => ?_) hcut
    have hnil : lens₁ = [] := (List.append_eq_nil_iff.mp hlens.symm).1
    simp only [hnil, List.sum_nil] at hn
    unfold inBody
    omega
  | cons c cs ih =>
    intro part rs hpart heq hcut
    rw [List.flatten_cons, ← List.append_assoc] at heq
    obtain ⟨done, rest, part', rfl, hsplit, hbegun⟩ := exists_cut (Request.pack v) heq
    have hlen : part.length + c.length = (done.map (packSize v)).sum + part'.length := by
      simpa [length_wire, packSize] using congrArg List.length hsplit
    have hclt : c.length < 2 ^ 31 := hcs c List.mem_cons_self
    by_cases hpart' : part'.length < AMCReqHeader.size
    · -- the first chunk is handled right, so a later one is not
      have htail : ¬ NoCut (packSize v) inBody part'.length rest (cs.map List.length) := by
        refine fun hnc => hcut (NoCut.cons ?_ hlen hnc)
        intro f later _
        rw [packSize, Request.length_pack hlo hhi, inBody]
        omega
      rw [hsplit, wire_append, List.append_assoc, List.append_cancel_left_eq] at heq
      obtain ⟨ds, hds, hbad⟩ :=
        ih (fun c' hc' => hcs c' (List.mem_cons_of_mem c hc')) hpart' heq htail
      refine ⟨⟨c, fun _ => 0⟩ :: ds, by simp [hds], fun fuel cache hrun => ?_⟩
      obtain ⟨res, hres, hrun⟩ := Option.bind_eq_some_iff.mp hrun
      obtain ⟨⟨cache', fs⟩, hrest, hpair⟩ := Option.map_eq_some_iff.mp hrun
      have hfirst := recvLoop_frames hlo hhi ⟨c, fun _ => 0⟩ hclt done hpart hpart' hsplit
      have hone := recvLoop_mono _ (Nat.le_add_right fuel (done.length + 1)) hres
      have htwo := recvLoop_mono _ (Nat.le_add_left (done.length + 1) fuel) hfirst
      obtain rfl := Option.some.inj (hone.symm.trans htwo)
      obtain ⟨rfl, hfs⟩ := Prod.mk.inj hpair
      rw [List.map_append, List.append_cancel_left_eq] at hfs
      exact hbad fuel cache' (hfs ▸ hrest)
    · cases rest with
      | nil =>
        have hnil : part' = [] := hbegun
        simp [hnil, AMCReqHeader.size] at hpart'
      | cons r rest =>
        -- the chunk ends in the body of `r`
        obtain ⟨hshort, lost, hlost⟩ := hbegun
        rw [Request.pack_eq hlo hhi] at hlost hshort
        have hle : (r.header v).encode.length ≤ part'.length := by
          rw [AMCReqHeader.length_encode]
          omega
        obtain ⟨got, rfl⟩ : (r.header v).encode <+: part' :=
          List.prefix_of_prefix_length_le (List.prefix_append _ _) ⟨lost, hlost⟩ hle
        rw [List.append_assoc, List.append_cancel_left_eq] at hlost
        have hne : lost ≠ [] := by
          rintro rfl
          simp [← hlost] at hshort
        obtain ⟨b, lost, rfl⟩ := List.exists_cons_of_ne_nil hne
        refine ⟨⟨c, fun _ => b + 1⟩ :: cs.map (⟨·, fun _ => 0⟩), by simp [Function.comp_def],
          fun fuel cache hrun => ?_⟩
        obtain ⟨res, hres, hrun⟩ := Option.bind_eq_some_iff.mp hrun
        obtain ⟨⟨cache', fs⟩, hrest, hpair⟩ := Option.map_eq_some_iff.mp hrun
        obtain ⟨extra, hextra, hbad⟩ := recvEvent_overread hlo hhi ⟨c, fun _ => b + 1⟩ hclt done r
          hpart hsplit hlost hne (by simp) hres
        obtain ⟨rfl, hfs⟩ := Prod.mk.inj hpair
        rw [hextra, List.map_append, List.append_assoc, List.append_cancel_left_eq,
          List.map_cons] at hfs
        rcases hbad with ⟨hnil, hcorrupt⟩ | ⟨f, gs, rfl, hf⟩
        · rw [hnil, List.nil_append] at hfs
          exact (recvEvents_lost r _ hcorrupt hrest).ne_frame hfs
        · have hl : Lost r v cache' (f :: gs ++ fs) := .inr ⟨f, gs ++ fs, rfl, hf⟩
          exact hl.ne_frame hfs

end Frames

theorem recvEvents_mono {α : Type} {val : α → UInt8} {fuel fuel' : Nat} (hle : fuel ≤ fuel')
    (ds : List (Delivery α)) : ∀ {cache : Option (RecvCache α)}
      {s : Option (RecvCache α) × List (ReqFrame α)},
      recvEvents val fuel cache ds = some s → recvEvents val fuel' cache ds = some s := by
  induction ds with
  | nil => exact fun h => h
  | cons d ds ih =>
    intro cache s h
    obtain ⟨r, hr, h⟩ := Option.bind_eq_some_iff.mp h
    obtain ⟨s', hs', rfl⟩ := Option.map_eq_some_iff.mp h
    have hr' : recvEvent val fuel' cache d = some r := recvLoop_mono d hle hr
    simp [recvEvents, hr', ih hs']

/-- Requests of protocol version 4 reach `processReceive` exactly, whatever lies
behind the chunks in memory, just when no chunk ends in the body of a packet:
at the end of its header or later, but before its last byte. -/
theorem serverFraming_iff_noCut (rs : List Request) (cs : List Chunk)
    (hcs : (cs.map (·.bytes)).flatten = wire (Request.pack HEADER_PROTOCAL_VERSION) rs) :
    (∀ ds : List (Delivery UInt8), ds.map (·.bytes) = cs.map (·.bytes) →
      ServerFramed HEADER_PROTOCAL_VERSION rs ds) ↔
    NoCut (packSize HEADER_PROTOCAL_VERSION) inBody 0 rs (cs.map (·.bytes.length)) := by
  have hlo : HEADER_PROTOCAL_VERSION ≤ HEADER_PROTOCAL_VERSION := by decide
  have hhi : HEADER_PROTOCAL_VERSION < HEADER_JSON_VERSION := by decide
  have hlt : ∀ c ∈ cs.map (·.bytes), c.length < 2 ^ 31 := by
    intro c hc
    obtain ⟨chunk, -, rfl⟩ := List.mem_map.mp hc
    exact chunk.len_lt
  have hlens : (cs.map (·.bytes)).map List.length = cs.map (·.bytes.length) := List.map_map
  have hnil : ([] : List UInt8).length < AMCReqHeader.size := by decide
  rw [← hlens]
  constructor
  · intro h
    by_contra hcut
    obtain ⟨ds, hds, hbad⟩ := exists_misread hlo hhi _ hlt hnil hcs hcut
    obtain ⟨fuel, cache, hrun⟩ := h ds hds
    exact hbad fuel cache hrun
  · intro hcut ds hds
    have hdlt : ∀ d ∈ ds, d.bytes.length < 2 ^ 31 :=
      fun d hd => hlt d.bytes (hds ▸ List.mem_map_of_mem hd)
    rw [← hds] at hcs hcut
    rw [List.map_map] at hcut
    obtain ⟨cache, hrun⟩ := recvEvents_framed hlo hhi ds hdlt hnil hcs hcut
      (rs.length + 1) (Nat.lt_succ_self _)
    exact ⟨_, cache, hrun⟩

theorem toNat_funcid : (1002 : BitVec 32).toNat ≤ 65535 := by decide

theorem length_oneByte : ((some [7] : Option (List UInt8)).getD []).length < 2 ^ 31 := by decide

/-- A request with a body of one byte. -/
def oneByteRequest : Request where
  funcid := 1002
  data := some [7]
  callertid := 1
  timestamp := 0
  now := ⟨1, 0⟩
  heap := ⟨0, 0, 0⟩
  funcid_le := toNat_funcid
  data_lt := length_oneByte

def oneByteHeader : Chunk where
  bytes := (oneByteRequest.header HEADER_PROTOCAL_VERSION).encode
  ne_nil := by decide
  len_lt := by decide

def oneByteBody : Chunk where
  bytes := [7]
  ne_nil := by decide
  len_lt := by decide

theorem serverFraming_iff_noCut_oneByte :
    (∀ ds : List (Delivery UInt8),
      ds.map (·.bytes) = [oneByteHeader, oneByteBody].map (·.bytes) →
      ServerFramed HEADER_PROTOCAL_VERSION [oneByteRequest] ds) ↔
    NoCut (packSize HEADER_PROTOCAL_VERSION) inBody 0 [oneByteRequest]
      ([oneByteHeader, oneByteBody].map (·.bytes.length)) :=
  serverFraming_iff_noCut [oneByteRequest] [oneByteHeader, oneByteBody] (by decide)

/-- The header arrives in one chunk and the body in the next. The first event copies
a zero from behind its chunk as the body and hands that on. -/
theorem serverFraming_header_then_body :
    ([oneByteHeader, oneByteBody].map (·.bytes)).flatten =
      wire (Request.pack HEADER_PROTOCAL_VERSION) [oneByteRequest] ∧
    ¬ ServerFramed HEADER_PROTOCAL_VERSION [oneByteRequest]
      [⟨oneByteHeader.bytes, fun _ => 0⟩, ⟨oneByteBody.bytes, fun _ => 0⟩] := by
  refine ⟨by decide, ?_⟩
  rintro ⟨fuel, cache, h⟩
  have hrun : recvEvents id 3 none
      [⟨oneByteHeader.bytes, fun _ => 0⟩, ⟨oneByteBody.bytes, fun _ => 0⟩] =
      some (some ⟨[7], none⟩, [⟨oneByteRequest.header HEADER_PROTOCAL_VERSION, oneByteHeader.bytes,
        some [0], 1⟩]) := by decide
  have hone := recvEvents_mono (Nat.le_add_right fuel 3) _ h
  have htwo := recvEvents_mono (Nat.le_add_left 3 fuel) _ hrun
  obtain ⟨-, hframes⟩ := Prod.mk.inj (Option.some.inj (hone.symm.trans htwo))
  exact absurd hframes (by decide)

end Hardcoder
