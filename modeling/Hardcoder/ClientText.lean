import Hardcoder.CJsonDocument
import Hardcoder.ClientJson
import Hardcoder.RequestFidelity

/-! The JSON bodies of the requests of `ClientProtocal` (protocol.h) as the texts that are sent,
and the documents that are read from them. -/

namespace Hardcoder
open Stream cJSON JsonText Rounding Strtol
set_option autoImplicit false

/-! ### Requests -/

/-- What the requests add to the document of their caller. -/
def headerItems (funcid : BitVec 32) : List (StdString × Item) := ofMembers (header funcid)

/-- The item of `configure` and `getParameters` -/
def addHeaderItem (funcid : BitVec 32) : Item → Item
  | .object members => .object (members ++ headerItems funcid)
  | .array items => .array (items ++ (headerItems funcid).map Prod.snd)
  | item => item

def parsedItem (funcid : BitVec 32) (data : Option StdString) : Built Item :=
  match data with
  | none => .undefined
  | some data =>
    match cJSON_Parse (c_str data) with
    | .ok item => .body (addHeaderItem funcid item)
    | _ => .undefined

/-- The item that a request prints. -/
def requestItem (env : ClientEnv) : ClientCall → Built Item
  | .configure data => parsedItem FUNC_CONFIGURE data
  | .getParameters data => parsedItem FUNC_GET_PARAMETERS data
  | c =>
    match jsonRequest env (fun _ => none) c with
    | .body item => .body (ofJson item)
    | .refused ret => .refused ret
    | .undefined => .undefined

/-- The caller's strings, as far as they go into the document, are clean. -/
def Legible : ClientCall → Prop
  | .checkPermission manufactures certs =>
    manufactures.length = certs.length → ∀ s ∈ manufactures ++ certs, Clean (c_str s)
  | .requestScreenResolution _ uiName => Clean (c_str uiName)
  | .registerBootPreloadResource files => ∀ file ∈ files, Clean (c_str file)
  | .configure data | .getParameters data =>
    ∀ text, data = some text → ∀ item, cJSON_Parse (c_str text) = .ok item → Printable item
  | _ => True

/-- As `Legible`, with numbers beyond the doubles allowed in the text that is parsed. -/
def CleanStrings : ClientCall → Prop
  | .configure data | .getParameters data =>
    ∀ text, data = some text → ∀ item, cJSON_Parse (c_str text) = .ok item → item.All (fun _ => True) Clean
  | c => Legible c

section Requests
variable {env : ClientEnv} {P : Binary64 → Prop}

/-- The names of the members that requests make. -/
def names : List String := ["jsonVersion", "funcid", "status", "scene", "action", "timeoutMs", "cpulevel",
  "gpulevel", "iolevel", "bindtids", "unbindtids", "cancelthread", "uiName", "level", "certTags",
  "manufacture", "cert", "type", "uid", "pid", "filelist"]

theorem clean_key : ∀ name ∈ names, Clean (key name) := by decide

theorem abs_toInt_le {w : Nat} (x : BitVec w) (hw : w ≤ 64) : |x.toInt| ≤ 2 ^ 64 := by
  have hpow : (2 : Int) ^ w ≤ 2 ^ 64 := pow_le_pow_right₀ (by decide) hw
  have hlow := BitVec.le_two_mul_toInt (x := x)
  have hhigh := BitVec.two_mul_toInt_lt (x := x)
  rw [abs_le]
  constructor <;> omega

theorem abs_toNat_le {w : Nat} (x : BitVec w) (hw : w ≤ 64) : |(x.toNat : Int)| ≤ 2 ^ 64 := by
  have hpow : 2 ^ w ≤ 2 ^ 64 := Nat.pow_le_pow_right (by decide) hw
  have hlt := x.isLt
  rw [Nat.abs_cast]
  omega

/-- The pairs of two lists of one length hold the strings of both. -/
theorem clean_certTags {manufactures certs : List StdString} (hlen : manufactures.length = certs.length) :
    (ofJson (.array (List.zipWith certTag manufactures certs))).All P Clean ↔
      ∀ s ∈ manufactures ++ certs, Clean (c_str s) := by
  have htag (pair : StdString × StdString) : (ofJson (certTag pair.1 pair.2)).All P Clean ↔
      Clean (c_str pair.1) ∧ Clean (c_str pair.2) := by
    constructor
    · rintro ⟨-, hmanufacture, -, hcert, -⟩
      exact ⟨hmanufacture, hcert⟩
    · rintro ⟨hmanufacture, hcert⟩
      exact ⟨clean_key _ (by decide), hmanufacture, clean_key _ (by decide), hcert, trivial⟩
  rw [certTags_eq_map, clean_array]
  simp only [htag]
  constructor
  · intro h s hs
    rcases List.mem_append.mp hs with hs | hs
    · rw [← List.map_fst_zip (Nat.le_of_eq hlen)] at hs
      obtain ⟨pair, hpair, rfl⟩ := List.mem_map.mp hs
      exact (h pair hpair).1
    · rw [← List.map_snd_zip (Nat.le_of_eq hlen.symm)] at hs
      obtain ⟨pair, hpair, rfl⟩ := List.mem_map.mp hs
      exact (h pair hpair).2
  · intro h pair hpair
    obtain ⟨hm, hc⟩ := List.of_mem_zip hpair
    exact ⟨h _ (List.mem_append_left _ hm), h _ (List.mem_append_right _ hc)⟩

section Numbers
variable (hP : ∀ z : Int, |z| ≤ 2 ^ 64 → P (.ofNumber (.finite (.nearest z))))
include hP

theorem clean_number {name : String} {z : Int} {members : List (StdString × Json)} (hname : name ∈ names)
    (hz : |z| ≤ 2 ^ 64) : CleanMembers P (number name z :: members) ↔ CleanMembers P members := by
  rw [number, cleanMembers_cons]
  exact ⟨fun h => h.2.2, fun h => ⟨clean_key name hname, hP z hz, h⟩⟩

theorem clean_header (funcid : BitVec 32) : CleanMembers P (header funcid) :=
  (clean_number hP (by decide) (abs_toNat_le _ (by decide))).mpr
    ((clean_number hP (by decide) (abs_toNat_le _ (by decide))).mpr cleanMembers_nil)

theorem clean_statusHeader (funcid status : BitVec 32) : CleanMembers P (statusHeader funcid status) :=
  cleanMembers_append.mpr ⟨clean_header hP funcid,
    (clean_number hP (by decide) (abs_toNat_le _ (by decide))).mpr cleanMembers_nil⟩

theorem clean_tids {name : String} (hname : name ∈ names) (p : Option (Delivery JInt)) (len : JInt) :
    CleanMembers P (tids name p len) := by
  unfold tids
  split
  · refine cleanMembers_cons.mpr ⟨clean_key name hname, ?_, cleanMembers_nil⟩
    exact (clean_array _ _).mpr fun tid _ => hP _ (abs_toInt_le tid (by decide))
  · exact cleanMembers_nil

theorem clean_highFreq (funcid : BitVec 32) {levelName : String} (hname : levelName ∈ names)
    (scene : JInt) (action : JLong) (level timeoutms : JInt) :
    CleanMembers P (highFreq funcid levelName scene action level timeoutms) :=
  cleanMembers_append.mpr ⟨clean_statusHeader hP _ _,
    (clean_number hP (by decide) (abs_toInt_le _ (by decide))).mpr <|
      (clean_number hP (by decide) (abs_toInt_le _ (by decide))).mpr <|
        (clean_number hP hname (abs_toInt_le _ (by decide))).mpr <|
          (clean_number hP (by decide) (abs_toInt_le _ (by decide))).mpr cleanMembers_nil⟩

theorem clean_cancelHighFreq (funcid : BitVec 32) {levelName : String} (hname : levelName ∈ names)
    (level : JInt) : CleanMembers P (cancelHighFreq funcid levelName level) :=
  cleanMembers_append.mpr ⟨clean_statusHeader hP _ _,
    (clean_number hP hname (abs_toInt_le _ (by decide))).mpr cleanMembers_nil⟩

theorem clean_registerCallback (env : ClientEnv) (funcid : BitVec 32) (type : JInt) :
    CleanMembers P (registerCallback env funcid type) :=
  cleanMembers_append.mpr ⟨clean_statusHeader hP _ _,
    (clean_number hP (by decide) (abs_toNat_le _ (by decide))).mpr <|
      (clean_number hP (by decide) (abs_toNat_le _ (by decide))).mpr <|
        (clean_number hP (by decide) (abs_toInt_le _ (by decide))).mpr cleanMembers_nil⟩

/-- Of what a request builds itself only the caller's strings may not be clean. -/
theorem clean_body {c : ClientCall} {cJSON_Parse : StdString → Option Json} {item : Json}
    (h : jsonRequest env cJSON_Parse c = .body item)
    (hdata : ∀ data, c ≠ .configure data ∧ c ≠ .getParameters data) :
    (ofJson item).All P Clean ↔ Legible c := by
  have hnumber {name : String} (hname : name ∈ names) {members : List (StdString × Json)} (x : JInt) :
      CleanMembers P (number name x.toInt :: members) ↔ CleanMembers P members :=
    clean_number hP hname (abs_toInt_le x (by decide))
  have haction {members : List (StdString × Json)} (x : JLong) :
      CleanMembers P (number "action" x.toInt :: members) ↔ CleanMembers P members :=
    clean_number hP (by decide) (abs_toInt_le x (by decide))
  cases c with
  | checkPermission manufactures certs =>
    cases h
    rw [clean_object, cleanMembers_append, and_iff_right (clean_header hP _)]
    by_cases hlen : manufactures.length = certs.length
    · by_cases hne : manufactures = []
      · subst hne
        obtain rfl := List.eq_nil_of_length_eq_zero hlen.symm
        exact iff_of_true cleanMembers_nil fun _ s hs => absurd hs List.not_mem_nil
      · rw [if_pos ⟨hne, hlen⟩, cleanMembers_cons, clean_certTags hlen]
        exact ⟨fun h _ => h.2.1, fun h => ⟨clean_key _ (by decide), h hlen, cleanMembers_nil⟩⟩
    · rw [if_neg fun h => hlen h.2]
      exact iff_of_true cleanMembers_nil fun h => absurd h hlen
  | requestCpuHighFreq scene action level timeoutms =>
    cases h
    exact iff_of_true (clean_highFreq hP _ (by decide) _ _ _ _) trivial
  | cancelCpuHighFreq =>
    cases h
    exact iff_of_true (clean_cancelHighFreq hP _ (by decide) _) trivial
  | requestGpuHighFreq scene action level timeoutms =>
    cases h
    exact iff_of_true (clean_highFreq hP _ (by decide) _ _ _ _) trivial
  | cancelGpuHighFreq =>
    cases h
    exact iff_of_true (clean_cancelHighFreq hP _ (by decide) _) trivial
  | requestCpuCoreForThread scene action bindtids bindlen timeoutms =>
    cases h
    refine iff_of_true ?_ trivial
    rw [clean_object, cleanMembers_append, cleanMembers_append, cleanMembers_append]
    exact ⟨⟨⟨clean_statusHeader hP _ _, (hnumber (by decide) scene).mpr
      ((haction action).mpr cleanMembers_nil)⟩, clean_tids hP (by decide) _ _⟩,
      (hnumber (by decide) timeoutms).mpr cleanMembers_nil⟩
  | cancelCpuCoreForThread unbindtids unbindlen =>
    rw [jsonRequest] at h
    split at h
    · cases h
    · cases h
      exact iff_of_true (cleanMembers_append.mpr
        ⟨clean_statusHeader hP _ _, clean_tids hP (by decide) _ _⟩) trivial
  | requestHighIOFreq scene action level timeoutms =>
    cases h
    exact iff_of_true (clean_highFreq hP _ (by decide) _ _ _ _) trivial
  | cancelHighIOFreq =>
    cases h
    exact iff_of_true (clean_cancelHighFreq hP _ (by decide) _) trivial
  | requestScreenResolution level uiName =>
    cases h
    rw [clean_object, cleanMembers_append, and_iff_right (clean_statusHeader hP _ _),
      cleanMembers_cons, hnumber (by decide)]
    exact ⟨fun h => h.2.1, fun h => ⟨clean_key _ (by decide), h, cleanMembers_nil⟩⟩
  | resetScreenResolution =>
    cases h
    exact iff_of_true (clean_statusHeader hP _ _) trivial
  | registerANRCallback =>
    cases h
    exact iff_of_true (clean_registerCallback hP _ _ _) trivial
  | registerSystemEventCallback =>
    cases h
    exact iff_of_true (clean_registerCallback hP _ _ _) trivial
  | registerBootPreloadResource files =>
    cases h
    rw [clean_object, cleanMembers_append, and_iff_right (clean_statusHeader hP _ _)]
    by_cases hne : files = []
    · subst hne
      exact iff_of_true cleanMembers_nil fun file hfile => absurd hfile List.not_mem_nil
    · rw [if_pos hne, cleanMembers_cons, clean_array]
      exact ⟨fun h => h.2.1, fun h => ⟨clean_key _ (by decide), h, cleanMembers_nil⟩⟩
  | terminateApp =>
    cases h
    exact iff_of_true (clean_statusHeader hP _ _) trivial
  | requestUnifyCpuIOThreadCoreGpu scene action cpulevel iolevel bindtids gpulevel bindlen timeoutms =>
    cases h
    refine iff_of_true ?_ trivial
    rw [clean_object, cleanMembers_append, cleanMembers_append, cleanMembers_append]
    exact ⟨⟨⟨clean_statusHeader hP _ _, (hnumber (by decide) scene).mpr <| (haction action).mpr <|
      (hnumber (by decide) cpulevel).mpr <| (hnumber (by decide) iolevel).mpr <|
        (hnumber (by decide) gpulevel).mpr cleanMembers_nil⟩, clean_tids hP (by decide) _ _⟩,
      (hnumber (by decide) timeoutms).mpr cleanMembers_nil⟩
  | cancelUnifyCpuIOThreadCoreGpu cancelcpu cancelio cancelthread unbindtids unbindlen cancelgpu =>
    cases h
    refine iff_of_true ?_ trivial
    rw [clean_object, cleanMembers_append, cleanMembers_append]
    exact ⟨⟨clean_statusHeader hP _ _, (hnumber (by decide) cancelcpu).mpr <|
      (hnumber (by decide) cancelio).mpr <| (hnumber (by decide) cancelgpu).mpr <|
        (hnumber (by decide) cancelthread).mpr cleanMembers_nil⟩, clean_tids hP (by decide) _ _⟩
  | configure data => exact absurd rfl (hdata data).1
  | getParameters data => exact absurd rfl (hdata data).2

end Numbers

/-- No document of a request is nested deeply. -/
def Shallow (members : List (StdString × Json)) : Prop := Doc.depthMembers (ofMembers members) ≤ 2

theorem shallow_append {members members' : List (StdString × Json)} :
    Shallow (members ++ members') ↔ Shallow members ∧ Shallow members' := by
  rw [Shallow, ofMembers_append, Doc.depthMembers_append, Nat.max_le]
  rfl

theorem depth_array {α : Type} {f : α → Json} {n : Nat} (h : ∀ a, (ofJson (f a)).depth ≤ n) (as : List α) :
    (ofJson (.array (as.map f))).depth ≤ n + 1 := by
  refine Nat.succ_le_succ (Doc.depthItems_le fun item hitem => ?_)
  induction as with
  | nil => cases hitem
  | cons a as ih =>
    rcases List.mem_cons.mp hitem with rfl | hitem
    · exact h a
    · exact ih hitem

theorem shallow_cons {name : StdString} {item : Json} {members : List (StdString × Json)} :
    Shallow ((name, item) :: members) ↔ (ofJson item).depth ≤ 2 ∧ Shallow members := by
  rw [Shallow, ofMembers, Doc.depthMembers, Nat.max_le]
  rfl

theorem shallow_number {name : String} {z : Int} {members : List (StdString × Json)} :
    Shallow (number name z :: members) ↔ Shallow members :=
  shallow_cons.trans (and_iff_right (Nat.zero_le 2))

theorem shallow_nil : Shallow [] := Nat.zero_le 2

theorem shallow_tids (name : String) (p : Option (Delivery JInt)) (len : JInt) : Shallow (tids name p len) := by
  unfold tids
  split
  · exact shallow_cons.mpr ⟨Nat.le_succ_of_le (depth_array (fun _ => Nat.le_refl 0) _), shallow_nil⟩
  · exact shallow_nil

theorem depth_body {c : ClientCall} {cJSON_Parse : StdString → Option Json} {item : Json}
    (h : jsonRequest env cJSON_Parse c = .body item)
    (hdata : ∀ data, c ≠ .configure data ∧ c ≠ .getParameters data) : (ofJson item).depth ≤ 3 := by
  have hobject {members : List (StdString × Json)} (h : Shallow members) :
      (ofJson (.object members)).depth ≤ 3 := Nat.succ_le_succ h
  cases c
  case configure data => exact absurd rfl (hdata data).1
  case getParameters data => exact absurd rfl (hdata data).2
  case cancelCpuCoreForThread unbindtids unbindlen =>
    rw [jsonRequest] at h
    split at h
    · cases h
    · cases h
      refine hobject ?_
      simp only [statusHeader, header, shallow_append, shallow_number, shallow_nil, shallow_tids, and_self]
  case checkPermission manufactures certs =>
    cases h
    refine hobject (shallow_append.mpr ⟨?_, ?_⟩)
    · simp only [header, shallow_number, shallow_nil]
    · split
      · rw [certTags_eq_map]
        exact shallow_cons.mpr ⟨depth_array (fun _ => Nat.le_refl 1) _, shallow_nil⟩
      · exact shallow_nil
  case registerBootPreloadResource files =>
    cases h
    refine hobject (shallow_append.mpr ⟨?_, ?_⟩)
    · simp only [statusHeader, header, shallow_append, shallow_number, shallow_nil, and_self]
    · split
      · exact shallow_cons.mpr ⟨Nat.le_succ_of_le (depth_array (fun _ => Nat.le_refl 0) _), shallow_nil⟩
      · exact shallow_nil
  case requestScreenResolution level uiName =>
    cases h
    refine hobject (shallow_append.mpr ⟨?_, shallow_cons.mpr ⟨Nat.zero_le 2, ?_⟩⟩)
    · simp only [statusHeader, header, shallow_append, shallow_number, shallow_nil, and_self]
    · simp only [shallow_number, shallow_nil]
  all_goals
    cases h
    refine hobject ?_
    simp only [highFreq, cancelHighFreq, registerCallback, statusHeader, header, shallow_append, shallow_number,
      shallow_nil, shallow_tids, and_self]

/-! ### The texts -/

theorem printable_headerItems (funcid : BitVec 32) :
    Doc.AllMembers (fun d => d.isFinite = true) Clean (headerItems funcid) :=
  clean_header (fun _ => isFinite_integer) funcid

theorem clean_headerItems (funcid : BitVec 32) :
    Doc.AllMembers (fun _ => True) Clean (headerItems funcid) :=
  clean_header (fun _ _ => trivial) funcid

/-- What is added has clean names and integers. -/
theorem all_addHeaderItem (hP : ∀ z : Int, |z| ≤ 2 ^ 64 → P (.ofNumber (.finite (.nearest z))))
    (funcid : BitVec 32) (item : Item) : (addHeaderItem funcid item).All P Clean ↔ item.All P Clean := by
  have hheader : Doc.AllMembers P Clean (headerItems funcid) := clean_header hP funcid
  cases item with
  | object members => exact Doc.allMembers_append.trans (and_iff_left hheader)
  | array items =>
    obtain ⟨-, hversion, -, hfuncid, -⟩ := hheader
    exact Doc.allItems_append.trans (and_iff_left ⟨hversion, hfuncid, trivial⟩)
  | _ => exact Iff.rfl

/-- What is added can be printed. -/
theorem printable_addHeaderItem (funcid : BitVec 32) (item : Item) :
    Printable (addHeaderItem funcid item) ↔ Printable item :=
  all_addHeaderItem (fun _ => isFinite_integer) funcid item

theorem clean_addHeaderItem (funcid : BitVec 32) (item : Item) :
    (addHeaderItem funcid item).All (fun _ => True) Clean ↔ item.All (fun _ => True) Clean :=
  all_addHeaderItem (fun _ _ => trivial) funcid item

theorem depth_addHeaderItem (funcid : BitVec 32) (item : Item) :
    (addHeaderItem funcid item).depth = item.depth := by
  cases item with
  | object members =>
    exact congrArg (· + 1) ((Doc.depthMembers_append _ _).trans (Nat.max_zero _))
  | array items => exact congrArg (· + 1) ((Doc.depthItems_append _ _).trans (Nat.max_zero _))
  | _ => rfl

theorem requestItem_data {funcid : BitVec 32} {data : Option StdString} {item : Item}
    (h : parsedItem funcid data = .body item) :
    ∃ text parsed, data = some text ∧ cJSON_Parse (c_str text) = .ok parsed ∧
      item = addHeaderItem funcid parsed := by
  cases data with
  | none => cases h
  | some text =>
    rw [parsedItem] at h
    cases hparse : cJSON_Parse (c_str text) with
    | ok parsed =>
      rw [hparse] at h
      cases h
      exact ⟨text, parsed, rfl, hparse, rfl⟩
    | outside =>
      rw [hparse] at h
      cases h
    | failed =>
      rw [hparse] at h
      cases h

theorem requestItem_built {c : ClientCall} {item : Item} (h : requestItem env c = .body item)
    (hdata : ∀ data, c ≠ .configure data ∧ c ≠ .getParameters data) :
    ∃ body, jsonRequest env (fun _ => none) c = .body body ∧ item = ofJson body := by
  have hbuilt : (match jsonRequest env (fun _ => none) c with
      | .body item => Built.body (ofJson item)
      | .refused ret => .refused ret
      | .undefined => .undefined) = .body item := by
    cases c <;> first | exact h | exact absurd rfl (hdata _).1 | exact absurd rfl (hdata _).2
  cases hbody : jsonRequest env (fun _ => none) c with
  | body body =>
    rw [hbody] at hbuilt
    cases hbuilt
    exact ⟨body, rfl, rfl⟩
  | refused ret =>
    rw [hbody] at hbuilt
    cases hbuilt
  | undefined =>
    rw [hbody] at hbuilt
    cases hbuilt

theorem printable_requestItem {c : ClientCall} {item : Item} (h : requestItem env c = .body item) :
    (Printable item ↔ Legible c) ∧ item.depth ≤ CJSON_NESTING_LIMIT := by
  have hparsed {funcid : BitVec 32} {data : Option StdString} (h : parsedItem funcid data = .body item) :
      (Printable item ↔ Legible (.configure data)) ∧ item.depth ≤ CJSON_NESTING_LIMIT := by
    obtain ⟨text, parsed, rfl, hparse, rfl⟩ := requestItem_data h
    rw [printable_addHeaderItem, depth_addHeaderItem]
    refine ⟨⟨?_, fun hlegible => hlegible text rfl parsed hparse⟩, (wellFormed_of_parse hparse).depth⟩
    rintro hprintable text' htext item' hitem'
    cases htext
    cases hparse.symm.trans hitem'
    exact hprintable
  by_cases hdata : ∀ data, c ≠ .configure data ∧ c ≠ .getParameters data
  · obtain ⟨body, hbody, rfl⟩ := requestItem_built h hdata
    exact ⟨clean_body (fun _ => isFinite_integer) hbody hdata, Nat.le_trans (depth_body hbody hdata) (by decide)⟩
  · cases c
    case configure data => exact hparsed h
    case getParameters data => exact hparsed h
    all_goals exact absurd (fun _ => ⟨ClientCall.noConfusion, ClientCall.noConfusion⟩) hdata

/-- What `cJSON_Parse` makes of the body of a request is what was printed, exactly if the
strings of the caller are clean. -/
theorem requestText_iff {heap : Nat → Nat → Bool} {c : ClientCall} {item : Item} {text : StdString}
    (h : requestItem env c = .body item) (hprint : print heap true item = .ok text) :
    cJSON_Parse text = .ok item ↔ Legible c := by
  obtain ⟨hprintable, hdepth⟩ := printable_requestItem h
  have htext : text = printedText true 0 item := text_of_print hprint
  rw [htext, cJSON_Parse, parse_printed_iff, hprintable]
  exact and_iff_left hdepth

theorem toMembers_headerItems (funcid : BitVec 32) : toMembers (headerItems funcid) = header funcid :=
  toMembers_ofMembers (printable_headerItems funcid)

theorem toJson_addHeaderItem (funcid : BitVec 32) (item : Item) :
    toJson (addHeaderItem funcid item) = addHeader funcid (toJson item) := by
  have hheader := toMembers_headerItems funcid
  cases item with
  | object members =>
    rw [addHeaderItem, toJson, toMembers_append, hheader]
    rfl
  | array items =>
    rw [addHeaderItem, toJson, toItems_append, toJson, addHeader, ← hheader]
    rfl
  | _ => rfl

def exampleJsonClient : ClientEnv := { exampleClient with HEADER_VERSION := HEADER_JSON_VERSION }

/-- The text `"\u0001"` -/
def cutText : StdString := [34, 92, 117, 48, 48, 48, 49, 34]

theorem parse_cutText : cJSON_Parse (c_str cutText) = .ok (.string [1]) := rfl

theorem requestItem_cutText : requestItem exampleJsonClient (.configure (some cutText)) = .body (.string [1]) := by
  rw [requestItem, parsedItem, parse_cutText]
  rfl

set_option maxRecDepth 4096 in
theorem print_cutText : print (fun _ _ => true) true (.string [1]) = .ok [34, 92, 117, 48, 48] := rfl

/-- `configure` with the text of a string that is cut. -/
theorem requestText_iff_cut :
    cJSON_Parse [34, 92, 117, 48, 48] = .ok (.string [1]) ↔ Legible (.configure (some cutText)) :=
  requestText_iff requestItem_cutText print_cutText

theorem jsonBody_data {heap : Nat → Nat → Bool} {funcid : BitVec 32} {data : Option StdString} {item : Item}
    {text : StdString} (h : parsedItem funcid data = .body item)
    (hclean : ∀ text, data = some text → ∀ item, cJSON_Parse (c_str text) = .ok item →
      item.All (fun _ => True) Clean)
    (hprint : print heap true item = .ok text) :
    ∃ body, parsedBody parsedJson funcid data = .body body ∧ parsedJson text = some body.printed := by
  obtain ⟨text', parsed, rfl, hparse, rfl⟩ := requestItem_data h
  have hparsed : parsedJson (c_str text') = some (toJson parsed) := by rw [parsedJson, hparse]
  have hstrings := (clean_addHeaderItem funcid parsed).mpr (hclean text' rfl parsed hparse)
  refine ⟨addHeader funcid (toJson parsed), ?_, ?_⟩
  · rw [parsedBody, Option.bind_some, hparsed]
  · rw [← toJson_addHeaderItem]
    exact parsedJson_of_print hstrings
      ((depth_addHeaderItem funcid parsed).trans_le (wellFormed_of_parse hparse).depth) hprint

/-- The document of a request is what a reader finds in its text, unless the caller's strings
are cut in it. -/
theorem jsonBody_text {heap : Nat → Nat → Bool} {c : ClientCall} {item : Item} {text : StdString}
    (h : requestItem env c = .body item) (hclean : CleanStrings c) (hprint : print heap true item = .ok text) :
    ∃ body, jsonBody env parsedJson c = .body body ∧ parsedJson text = some body := by
  have hparsed {funcid : BitVec 32} {data : Option StdString}
      (hjson : jsonRequest env parsedJson c = parsedBody parsedJson funcid data)
      (h : parsedItem funcid data = .body item)
      (hclean : ∀ text, data = some text → ∀ item, cJSON_Parse (c_str text) = .ok item →
        item.All (fun _ => True) Clean) :
      ∃ body, jsonBody env parsedJson c = .body body ∧ parsedJson text = some body := by
    obtain ⟨body, hbody, htext⟩ := jsonBody_data h hclean hprint
    exact ⟨body.printed, by rw [jsonBody, hjson, hbody], htext⟩
  by_cases hdata : ∀ data, c ≠ .configure data ∧ c ≠ .getParameters data
  · have hlegible : Legible c := by
      cases c <;> first | exact hclean | exact absurd rfl (hdata _).1 | exact absurd rfl (hdata _).2
    obtain ⟨hprintable, hdepth⟩ := printable_requestItem h
    obtain ⟨body, hbody, rfl⟩ := requestItem_built h hdata
    have hitem := hprintable.mpr hlegible
    have hjson : jsonRequest env parsedJson c = .body body := by
      rw [← hbody]
      cases c <;> first | rfl | exact absurd rfl (hdata _).1 | exact absurd rfl (hdata _).2
    have hread := parsedJson_of_print (Doc.All.imp (fun _ _ => trivial) (fun _ h => h) hitem) hdepth hprint
    rw [toJson_ofJson hitem] at hread
    exact ⟨body.printed, by rw [jsonBody, hjson], hread⟩
  · cases c
    case configure data => exact hparsed rfl h hclean
    case getParameters data => exact hparsed rfl h hclean
    all_goals exact absurd (fun _ => ⟨ClientCall.noConfusion, ClientCall.noConfusion⟩) hdata

def exampleItem : Item :=
  ofJson (.object (statusHeader FUNC_SET_SCREEN_RESOLUTION STATUS_REQUEST ++
    [(key "uiName", createString [97]), number "level" 0]))

def exampleText : StdString :=
  key "\x7b\n\t\"jsonVersion\":\t1,\n\t\"funcid\":\t1008,\n\t\"status\":\t1,\n\t\"uiName\":\t\"a\",\n\t\"level\":\t0\n\x7d"

set_option maxRecDepth 4096 in
theorem print_exampleItem : print (fun _ _ => true) true exampleItem = .ok exampleText := by decide +kernel

theorem jsonBody_text_resolution : ∃ body,
    jsonBody exampleJsonClient parsedJson (.requestScreenResolution 0 [97]) = .body body ∧
      parsedJson exampleText = some body := by
  have hitem : requestItem exampleJsonClient (.requestScreenResolution 0 [97]) = .body exampleItem := rfl
  exact jsonBody_text hitem (by decide : Clean [97]) print_exampleItem

end Requests

end Hardcoder
