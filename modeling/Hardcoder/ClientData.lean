import Hardcoder.ClientText

/-! `configure` and `getParameters` of `HardCoderJNI`, for any byte array. -/

namespace Hardcoder
open Stream cJSON JsonText
set_option autoImplicit false

/-- What becomes of a call. -/
inductive Outcome where
  /-- bytes behind a buffer are read -/
  | overread
  /-- a null pointer is read -/
  | nullRead
  | returned (r : SendResult)

/-- The two operations, alike but for their function id and message. -/
inductive DataCall where
  | configure
  | getParameters
deriving DecidableEq, Repr

namespace DataCall

def funcid : DataCall → BitVec 32
  | configure => FUNC_CONFIGURE
  | getParameters => FUNC_GET_PARAMETERS

/-- The branch below `HEADER_JSON_VERSION`. -/
def sendProtobuf (op : DataCall) (env : ClientEnv) (data : StdString) (tid : JInt)
    (timestamp : JLong) : SendResult :=
  match op with
  | configure => env.configure data tid timestamp
  | getParameters => env.getParameters data tid timestamp

/-- What the server reads from such a body. -/
def parse (op : DataCall) (pb : Protobuf) (body : List UInt8) : Bool × StdString :=
  match op with
  | configure => ((pb.Configuration.ParseFromArray body).1, (pb.Configuration.ParseFromArray body).2.data)
  | getParameters =>
    ((pb.GetParameters.ParseFromArray body).1, (pb.GetParameters.ParseFromArray body).2.data)

end DataCall

section Native
variable (heap : Nat → Nat → Bool) (env : ClientEnv) (op : DataCall) (data : Option (JArray UInt8))
  (tid : JInt) (timestamp : JLong)

/-- The bytes of the array, none if it is null. -/
def arrayBytes : List UInt8 := (data.map (·.val)).getD []

/-- `dataBuf` is taken for a C string, whose bytes are those before the first zero. -/
def dataChars : StdString := (arrayBytes data).takeWhile (· ≠ 0)

/-- The branch from `HEADER_JSON_VERSION` on: `std::string str(body)` reads the pointer
`cJSON_Print` returned, and `len` is an `int` once it is `sendReq`'s. -/
def sendJson (pEngine : IClientEngine) : Outcome :=
  match cJSON_Parse (dataChars data) with
  | .ok jsonRequest =>
    match print heap true (addHeaderItem op.funcid jsonRequest) with
    | .ok body =>
      .returned
        (env.sendReq pEngine op.funcid (some body) (BitVec.ofNat 32 body.length) tid timestamp)
    | .failed => .nullRead
    | .outside => .overread
  | .failed => .nullRead
  | .outside => .overread

/-- The native method: `jbyteArrayToChars` copies the bytes alone, so that a C string
that starts there ends behind them unless there is a zero among them. -/
def nativeData : Outcome :=
  match env.engine with
  | none => .returned ⟨-3, none⟩
  | some pEngine =>
    if arrayBytes data ≠ [] ∧ 0 ∉ arrayBytes data then .overread
    else if HEADER_JSON_VERSION ≤ env.HEADER_VERSION then
      sendJson heap env op data tid timestamp pEngine
    else .returned (op.sendProtobuf env (dataChars data) tid timestamp)

/-! ### What is asked of it -/

/-- The caller's data: the bytes, without the zero that ends them if one does. -/
def callerData : StdString :=
  if (arrayBytes data).getLast? = some 0 then (arrayBytes data).dropLast else arrayBytes data

/-- The caller's members, extended with one version and one function id. -/
structure Extended (funcid : BitVec 32) (members body : List (StdString × Json)) : Prop where
  extended : body = members ++ header funcid
  names : ∀ m ∈ members, m.1 ≠ key "jsonVersion" ∧ m.1 ≠ key "funcid"

/-- The body carries all of the caller's data. -/
def CarriesData (body : List UInt8) : Prop :=
  if HEADER_JSON_VERSION ≤ env.HEADER_VERSION then
    0 ∉ callerData data ∧ ∃ members members', parsedJson (callerData data) = some (.object members) ∧
      parsedJson body = some (.object members') ∧ Extended op.funcid members members'
  else op.parse env.pb body = (true, callerData data)

def headerSize : Nat :=
  if HEADER_JSON_VERSION ≤ env.HEADER_VERSION then AMCReqHeaderV2.size else AMCReqHeader.size

/-- A negative error and nothing sent, or one request with the caller's data. -/
inductive Safe : Outcome → Prop where
  | refused {r : SendResult} (hret : r.ret < 0) (hpacket : r.packet = none) : Safe (.returned r)
  | sent {r : SendResult} {pack : List UInt8} (hpacket : r.packet = some pack)
      (hfuncid : (AMCReqHeader.decode pack).funcid = op.funcid.setWidth 16)
      (hbody : CarriesData env op data (pack.drop (headerSize env))) : Safe (.returned r)

/-! ### When it is met -/

/-- The engine has stopped, or no header can be built, or the clock is before the epoch. -/
def Refuses (pEngine : IClientEngine) : Prop :=
  pEngine.isRunning = false ∨ env.HEADER_VERSION < HEADER_PROTOCAL_VERSION ∨ env.now.micros.toInt < 0

def Sends (pEngine : IClientEngine) : Prop :=
  pEngine.isRunning = true ∧ HEADER_PROTOCAL_VERSION ≤ env.HEADER_VERSION ∧ 0 < env.now.micros.toInt

/-- A JSON object whose strings are clean, with no number that `double` cannot hold and no
member of the name of an added one. -/
structure PlainObject (text : StdString) : Prop where
  object : ∃ members, cJSON_Parse text = .ok (.object members) ∧ Printable (.object members) ∧
    ∀ m ∈ members, m.1 ≠ key "jsonVersion" ∧ m.1 ≠ key "funcid"

/-- The size of the message can be counted by an `int`. -/
def Countable : Prop :=
  match op with
  | .configure => (env.pb.Configuration.SerializeToArray ⟨dataChars data⟩).length < 2 ^ 31
  | .getParameters => (env.pb.GetParameters.SerializeToArray ⟨dataChars data⟩).length < 2 ^ 31

/-- Without an engine nothing is read. Otherwise the array needs a zero byte, and in JSON
mode a document in front of it that is printed; and what is sent is whole if the only zero is
the last byte and the document is a plain object. -/
structure Handled (pEngine : IClientEngine) : Prop where
  terminated : arrayBytes data ≠ [] → 0 ∈ arrayBytes data
  document : HEADER_JSON_VERSION ≤ env.HEADER_VERSION → ∃ item text,
    cJSON_Parse (dataChars data) = .ok item ∧ print heap true (addHeaderItem op.funcid item) = .ok text
  countable : ¬ HEADER_JSON_VERSION ≤ env.HEADER_VERSION → Countable env op data
  sends : Refuses env pEngine ∨ (Sends env pEngine ∧ 0 ∉ callerData data ∧
    (HEADER_JSON_VERSION ≤ env.HEADER_VERSION → PlainObject (callerData data)))

section Sending
variable {env op data} {tid : JInt} {timestamp : JLong} {pEngine : IClientEngine} {body : List UInt8}

theorem funcid_le (op : DataCall) : op.funcid.toNat ≤ 65535 := by
  cases op <;> decide

/-- The packet of a request with a body, once the version allows one. -/
theorem genReqPack_body (hversion : HEADER_PROTOCAL_VERSION ≤ env.HEADER_VERSION)
    (hlen : body.length < 2 ^ 31) : ∃ pack outLen,
    genReqPack env.HEADER_VERSION env.heap env.now op.funcid (some body)
      (BitVec.ofNat 32 body.length) tid timestamp = ⟨env.now.micros.toInt, some pack, outLen⟩ ∧
    (AMCReqHeader.decode pack).funcid = op.funcid.setWidth 16 ∧ pack.drop (headerSize env) = body := by
  have hdata : ¬ (0 < (BitVec.ofNat 32 body.length).toInt ∧ some body = none) := fun h => nomatch h.2
  have hfuncid : ¬ 65535 < op.funcid.toNat := Nat.not_lt.mpr (funcid_le op)
  have hcopied : copied (some body) (BitVec.ofNat 32 body.length) = body := by
    rw [copied, BitVec.toNat_ofNat, Nat.mod_eq_of_lt (by omega)]
    exact List.take_length
  unfold genReqPack headerSize
  rw [if_neg hdata, if_neg hfuncid, if_neg (BitVec.not_lt.mpr hversion), hcopied]
  dsimp only
  split
  · refine ⟨_, _, rfl, ?_, List.drop_left' (AMCReqHeaderV2.length_encode _)⟩
    rw [AMCReqHeaderV2.encode, List.append_assoc, AMCReqHeader.decode_encode_append]
    rfl
  · refine ⟨_, _, rfl, ?_, List.drop_left' (AMCReqHeader.length_encode _)⟩
    rw [AMCReqHeader.decode_encode_append]
    rfl

theorem sendReq_refuses (h : Refuses env pEngine) (hlen : body.length < 2 ^ 31) : ∃ ret < 0,
    env.sendReq pEngine op.funcid (some body) (BitVec.ofNat 32 body.length) tid timestamp =
      ⟨ret, none⟩ := by
  unfold ClientEnv.sendReq
  by_cases hrunning : pEngine.isRunning = false
  · exact ⟨-1, by decide, if_pos hrunning⟩
  rw [if_neg hrunning]
  by_cases hold : env.HEADER_VERSION < HEADER_PROTOCAL_VERSION
  · have hdata : ¬ (0 < (BitVec.ofNat 32 body.length).toInt ∧ some body = none) := fun h => nomatch h.2
    have hfuncid : ¬ 65535 < op.funcid.toNat := Nat.not_lt.mpr (funcid_le op)
    rw [genReqPack, if_neg hdata, if_neg hfuncid, if_pos hold]
    exact ⟨-1, by decide, rfl⟩
  · obtain ⟨pack, outLen, hgen, -⟩ := @genReqPack_body env op tid timestamp body
      (BitVec.not_lt.mp hold) hlen
    have hclock : env.now.micros.toInt < 0 := by
      rcases h with h | h | h
      · exact absurd h hrunning
      · exact absurd h hold
      · exact h
    rw [hgen]
    exact ⟨env.now.micros.toInt, hclock, if_pos (Int.le_of_lt hclock)⟩

theorem sendReq_sends (h : Sends env pEngine) (hlen : body.length < 2 ^ 31) : ∃ pack,
    (env.sendReq pEngine op.funcid (some body) (BitVec.ofNat 32 body.length) tid timestamp).packet =
      some pack ∧ (AMCReqHeader.decode pack).funcid = op.funcid.setWidth 16 ∧
      pack.drop (headerSize env) = body := by
  obtain ⟨hrunning, hversion, hclock⟩ := h
  obtain ⟨pack, outLen, hgen, hfuncid, hbody⟩ := @genReqPack_body env op tid timestamp body
    hversion hlen
  refine ⟨pack, ?_, hfuncid, hbody⟩
  unfold ClientEnv.sendReq
  rw [if_neg (by rw [hrunning]; decide), hgen]
  dsimp only
  rw [if_neg (Int.not_le.mpr hclock)]

theorem sendReq_neither (h : ¬ Refuses env pEngine) (hs : ¬ Sends env pEngine)
    (hlen : body.length < 2 ^ 31) :
    env.sendReq pEngine op.funcid (some body) (BitVec.ofNat 32 body.length) tid timestamp = ⟨0, none⟩ := by
  simp only [Refuses, not_or] at h
  obtain ⟨hrunning, hold, hclock⟩ := h
  have hversion := BitVec.not_lt.mp hold
  have hzero : env.now.micros.toInt = 0 := by
    by_contra hne
    exact hs ⟨by simpa using hrunning, hversion, by omega⟩
  obtain ⟨pack, outLen, hgen, -⟩ := @genReqPack_body env op tid timestamp body hversion hlen
  unfold ClientEnv.sendReq
  rw [if_neg hrunning, hgen, hzero]
  rfl

theorem safe_sendReq_iff (hlen : body.length < 2 ^ 31) :
    Safe env op data (.returned
      (env.sendReq pEngine op.funcid (some body) (BitVec.ofNat 32 body.length) tid timestamp)) ↔
    Refuses env pEngine ∨ (Sends env pEngine ∧ CarriesData env op data body) := by
  by_cases hr : Refuses env pEngine
  · obtain ⟨ret, hret, heq⟩ := @sendReq_refuses env op tid timestamp pEngine body hr hlen
    rw [heq]
    exact iff_of_true (.refused hret rfl) (.inl hr)
  rw [or_iff_right hr]
  by_cases hs : Sends env pEngine
  · obtain ⟨pack, hpack, hfuncid, hbody⟩ := @sendReq_sends env op tid timestamp pEngine body hs hlen
    constructor
    · rintro (⟨-, hnone⟩ | ⟨hpack', -, hcarries⟩)
      · rw [hnone] at hpack
        cases hpack
      · rw [hpack] at hpack'
        obtain rfl := Option.some.inj hpack'
        exact ⟨hs, hbody ▸ hcarries⟩
    · exact fun h => .sent hpack hfuncid (hbody.symm ▸ h.2)
  · rw [sendReq_neither hr hs hlen]
    constructor
    · rintro (⟨hret, -⟩ | ⟨hpack, -⟩)
      · exact absurd hret (by decide)
      · cases hpack
    · exact fun h => absurd h.1 hs

end Sending

section Data
variable {data}

theorem zero_notMem_dataChars : 0 ∉ dataChars data := by
  intro h
  have := List.mem_takeWhile_imp h
  simp at this

/-- With a zero in the array, the C string is the caller's data if no zero is part of it. -/
theorem dataChars_eq_iff (h : arrayBytes data ≠ [] → 0 ∈ arrayBytes data) :
    dataChars data = callerData data ↔ 0 ∉ callerData data := by
  constructor
  · intro heq
    rw [← heq]
    exact zero_notMem_dataChars
  · intro h0
    unfold callerData at h0 ⊢
    unfold dataChars
    split at h0
    · rename_i hlast
      obtain ⟨front, hfront⟩ := List.getLast?_eq_some_iff.mp hlast
      have hdrop : (arrayBytes data).dropLast = front := by rw [hfront, List.dropLast_concat]
      rw [if_pos hlast, hdrop, hfront]
      have hall : ∀ c ∈ front, decide (c ≠ 0) = true := by
        intro c hc
        rw [decide_eq_true_eq]
        rintro rfl
        exact h0 (hdrop ▸ hc)
      rw [List.takeWhile_append_of_pos hall, List.takeWhile_cons_of_neg (by simp), List.append_nil]
    · rename_i hlast
      rw [if_neg hlast]
      by_cases hnil : arrayBytes data = []
      · rw [hnil]
        rfl
      · exact absurd (h hnil) h0

end Data

section Results
variable {heap env op data} {tid : JInt} {timestamp : JLong} {pEngine : IClientEngine}

theorem toMembers_names {members : List (StdString × Item)} {P : StdString → Prop} :
    (∀ m ∈ toMembers members, P m.1) ↔ ∀ m ∈ members, P m.1 := by
  induction members with
  | nil => exact iff_of_true (fun _ h => absurd h List.not_mem_nil) fun _ h => absurd h List.not_mem_nil
  | cons member members ih => rw [toMembers, List.forall_mem_cons, List.forall_mem_cons, ih]

/-- The text of an extended object is read as the caller's members and the added ones just when
the object can be printed. -/
theorem parsedJson_extended_iff {members : List (StdString × Item)} {body : StdString}
    (hdepth : (Doc.object members).depth ≤ CJSON_NESTING_LIMIT)
    (hprint : print heap true (addHeaderItem op.funcid (.object members)) = .ok body) :
    parsedJson body = some (.object (toMembers members ++ header op.funcid)) ↔ Printable (.object members) := by
  have hitem : toJson (addHeaderItem op.funcid (.object members)) =
      .object (toMembers members ++ header op.funcid) := toJson_addHeaderItem op.funcid (.object members)
  have hdepth' := (depth_addHeaderItem op.funcid (.object members)).trans_le hdepth
  rw [← printable_addHeaderItem op.funcid, ← hitem, printable_iff]
  constructor
  · intro hread
    obtain ⟨parsed, hparse, heq⟩ := parsedJson_eq_some hread
    have htext : body = printedText true 0 _ := text_of_print hprint
    rw [htext] at hparse
    rcases parse_printed_or hparse with ⟨hclean, rfl⟩ | hcut
    · rw [toJson_nulled] at heq
      exact ⟨hclean, (Json.printed_eq_self_iff _).mp heq.symm⟩
    · exact absurd heq hcut.toJson_ne
  · rintro ⟨hclean, hfinite⟩
    rw [parsedJson_of_print hclean hdepth' hprint, (Json.printed_eq_self_iff _).mpr hfinite]

/-- A printed document carries the data just when the array holds it whole and it is a
plain object. -/
theorem carries_json_iff (hjson : HEADER_JSON_VERSION ≤ env.HEADER_VERSION)
    (hterminated : arrayBytes data ≠ [] → 0 ∈ arrayBytes data) {item : Item} {body : StdString}
    (hitem : cJSON_Parse (dataChars data) = .ok item)
    (hprint : print heap true (addHeaderItem op.funcid item) = .ok body) :
    CarriesData env op data body ↔ 0 ∉ callerData data ∧ PlainObject (callerData data) := by
  rw [CarriesData, if_pos hjson]
  refine and_congr_right fun hzero => ?_
  rw [(dataChars_eq_iff hterminated).mpr hzero] at hitem
  have hdepth := (wellFormed_of_parse hitem).depth
  constructor
  · rintro ⟨members, members', hmembers, hmembers', hextended, hnames⟩
    obtain ⟨item', hitem', hobject⟩ := parsedJson_eq_some hmembers
    cases hitem.symm.trans hitem'
    cases item with
    | object members₀ =>
      obtain rfl := Json.object.inj hobject
      rw [hextended] at hmembers'
      exact ⟨members₀, hitem, (parsedJson_extended_iff hdepth hprint).mp hmembers',
        toMembers_names (P := fun name => name ≠ key "jsonVersion" ∧ name ≠ key "funcid") |>.mp hnames⟩
    | _ => cases hobject
  · rintro ⟨members, hmembers, hprintable, hnames⟩
    cases hitem.symm.trans hmembers
    refine ⟨toMembers members, _, ?_, (parsedJson_extended_iff hdepth hprint).mpr hprintable, rfl,
      toMembers_names (P := fun name => name ≠ key "jsonVersion" ∧ name ≠ key "funcid") |>.mpr hnames⟩
    rw [parsedJson, hitem]
    rfl

theorem safe_sendJson_iff (hjson : HEADER_JSON_VERSION ≤ env.HEADER_VERSION)
    (hterminated : arrayBytes data ≠ [] → 0 ∈ arrayBytes data) :
    Safe env op data (sendJson heap env op data tid timestamp pEngine) ↔ Handled heap env op data pEngine := by
  unfold sendJson
  by_cases hdocument : ∃ item text, cJSON_Parse (dataChars data) = .ok item ∧
      print heap true (addHeaderItem op.funcid item) = .ok text
  · obtain ⟨item, body, hitem, hprint⟩ := hdocument
    have hlen : body.length < 2 ^ 31 := by
      have hle := length_of_print hprint
      rw [INT_MAX] at hle
      omega
    rw [hitem]
    dsimp only
    rw [hprint]
    dsimp only
    rw [safe_sendReq_iff hlen, carries_json_iff hjson hterminated hitem hprint]
    constructor
    · intro h
      refine ⟨hterminated, fun _ => ⟨item, body, hitem, hprint⟩, fun hold => absurd hjson hold, ?_⟩
      exact h.imp_right fun ⟨hs, hzero, hplain⟩ => ⟨hs, hzero, fun _ => hplain⟩
    · intro h
      exact h.sends.imp_right fun ⟨hs, hzero, hplain⟩ => ⟨hs, hzero, hplain hjson⟩
  · refine iff_of_false (fun hsafe => ?_) fun h => hdocument (h.document hjson)
    split at hsafe
    · split at hsafe
      · exact hdocument ⟨_, _, ‹_›, ‹_›⟩
      · cases hsafe
      · cases hsafe
    · cases hsafe
    · cases hsafe

/-- One message of amc.proto with the data in it. -/
theorem safe_sendMessage_iff {M : Type} (codec : Codec M) {request : M}
    (hengine : env.engine = some pEngine) (hold : ¬ HEADER_JSON_VERSION ≤ env.HEADER_VERSION)
    (hterminated : arrayBytes data ≠ [] → 0 ∈ arrayBytes data)
    (hparse : op.parse env.pb (codec.SerializeToArray request) = (true, dataChars data))
    (hcountable : Countable env op data ↔
      (codec.SerializeToArray request).length < 2 ^ 31) :
    Safe env op data
      (.returned (env.sendMessage codec request op.funcid tid timestamp)) ↔
      Handled heap env op data pEngine := by
  have hsend : env.sendMessage codec request op.funcid tid timestamp =
      if 2 ^ 31 ≤ (codec.SerializeToArray request).length then ⟨0, none⟩
      else env.sendReq pEngine op.funcid (some (codec.SerializeToArray request))
        (BitVec.ofNat 32 (codec.SerializeToArray request).length) tid timestamp := by
    rw [ClientEnv.sendMessage, ClientEnv.withEngine, hengine]
    rfl
  rw [hsend]
  by_cases hlen : 2 ^ 31 ≤ (codec.SerializeToArray request).length
  · rw [if_pos hlen]
    refine iff_of_false ?_ fun h => absurd (hcountable.mp (h.countable hold)) (Nat.not_lt.mpr hlen)
    rintro (⟨hret, -⟩ | ⟨hpack, -⟩)
    · exact absurd hret (by decide)
    · cases hpack
  · have hcarries : CarriesData env op data (codec.SerializeToArray request) ↔
        0 ∉ callerData data := by
      rw [CarriesData, if_neg hold, hparse, ← dataChars_eq_iff hterminated, Prod.mk.injEq]
      exact and_iff_right rfl
    rw [if_neg hlen, safe_sendReq_iff (Nat.not_le.mp hlen), hcarries]
    constructor
    · intro h
      refine ⟨hterminated, fun hjson => absurd hjson hold, fun _ => hcountable.mpr (Nat.not_le.mp hlen), ?_⟩
      exact h.imp_right fun ⟨hs, hzero⟩ => ⟨hs, hzero, fun hjson => absurd hjson hold⟩
    · intro h
      exact h.sends.imp_right fun ⟨hs, hzero, _⟩ => ⟨hs, hzero⟩

theorem safe_nativeData_iff_handled (hpb : env.pb.Inverse) :
    Safe env op data (nativeData heap env op data tid timestamp) ↔
      ∀ pEngine, env.engine = some pEngine → Handled heap env op data pEngine := by
  unfold nativeData
  cases hengine : env.engine with
  | none => exact iff_of_true (.refused (by decide) rfl) fun _ h => nomatch h
  | some pEngine =>
    have hone : (∀ p, some pEngine = some p → Handled heap env op data p) ↔
        Handled heap env op data pEngine :=
      ⟨fun h => h pEngine rfl, fun h p hp => Option.some.inj hp ▸ h⟩
    rw [hone]
    dsimp only
    by_cases hover : arrayBytes data ≠ [] ∧ 0 ∉ arrayBytes data
    · rw [if_pos hover]
      exact iff_of_false (fun h => nomatch h) fun h => hover.2 (h.terminated hover.1)
    have hterminated : arrayBytes data ≠ [] → 0 ∈ arrayBytes data := by
      intro hne
      by_contra hzero
      exact hover ⟨hne, hzero⟩
    rw [if_neg hover]
    by_cases hjson : HEADER_JSON_VERSION ≤ env.HEADER_VERSION
    · rw [if_pos hjson]
      exact safe_sendJson_iff hjson hterminated
    · rw [if_neg hjson]
      cases op with
      | configure =>
        exact safe_sendMessage_iff env.pb.Configuration hengine hjson hterminated
          (by rw [DataCall.parse, hpb.Configuration]) Iff.rfl
      | getParameters =>
        exact safe_sendMessage_iff env.pb.GetParameters hengine hjson hterminated
          (by rw [DataCall.parse, hpb.GetParameters]) Iff.rfl

end Results

end Native

/-- The text `\x7b"a":"b"\x7d` with the zero that ends it -/
def exampleObject : JArray UInt8 := ⟨key "\x7b\"a\":\"b\"\x7d" ++ [0], by decide⟩

def exampleMembers : List (StdString × Item) := [([97], .string [98])]

/-- What is printed for it with the two members added. -/
def examplePrinted : StdString :=
  key "\x7b\n\t\"a\":\t\"b\",\n\t\"jsonVersion\":\t1,\n\t\"funcid\":\t1018\n\x7d"

theorem parse_exampleObject : cJSON_Parse (dataChars exampleObject) = .ok (.object exampleMembers) := by
  have htext : dataChars exampleObject = printedText false 0 (.object exampleMembers) := by decide +kernel
  rw [htext]
  exact parse_printed false ⟨by decide, (by decide : Clean [98]), trivial⟩ (by decide)

set_option maxRecDepth 4096 in
theorem print_exampleObject : print (fun _ _ => true) true
    (addHeaderItem DataCall.configure.funcid (.object exampleMembers)) = .ok examplePrinted := by decide +kernel

theorem safe_nativeData_iff_handled_object :
    Safe exampleJsonClient .configure exampleObject
      (nativeData (fun _ _ => true) exampleJsonClient .configure exampleObject 5 6) := by
  refine (safe_nativeData_iff_handled amcWire_inverse).mpr fun pEngine hengine => ?_
  have hcaller : callerData exampleObject = dataChars exampleObject := by decide
  have hplain : PlainObject (callerData exampleObject) := by
    rw [hcaller]
    exact ⟨exampleMembers, parse_exampleObject, ⟨by decide, (by decide : Clean [98]), trivial⟩, by decide⟩
  cases hengine
  exact ⟨fun _ => by decide, fun _ => ⟨_, _, parse_exampleObject, print_exampleObject⟩,
    fun hold => absurd (by decide) hold, .inr ⟨⟨rfl, by decide, by decide⟩, by decide, fun _ => hplain⟩⟩

/-- One byte without a terminator is read beyond its end; with one, a text that is no JSON
makes `cJSON_Print` return the null pointer that is then read. -/
theorem nativeData_unsafe :
    ¬ Safe exampleClient .configure (some ⟨[65], by decide⟩)
      (nativeData (fun _ _ => true) exampleClient .configure (some ⟨[65], by decide⟩) 5 6) ∧
    ¬ Safe exampleJsonClient .configure (some ⟨[65, 0], by decide⟩)
      (nativeData (fun _ _ => true) exampleJsonClient .configure (some ⟨[65, 0], by decide⟩) 5 6) := by
  have hover : nativeData (fun _ _ => true) exampleClient .configure (some ⟨[65], by decide⟩) 5 6 =
      .overread := rfl
  have hnull : nativeData (fun _ _ => true) exampleJsonClient .configure (some ⟨[65, 0], by decide⟩) 5 6 =
      .nullRead := rfl
  rw [hover, hnull]
  exact ⟨fun h => (nomatch h), fun h => (nomatch h)⟩

end Hardcoder
