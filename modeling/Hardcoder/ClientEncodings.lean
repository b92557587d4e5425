import Hardcoder.ClientJson

/-! The two encodings of a request: which arguments each body carries, and with which
values. A number in JSON is the double that its text is read as. -/

namespace Hardcoder
open Stream cJSON Rounding
set_option autoImplicit false

/-- The parameters of the request functions, and what a registration adds to them. -/
inductive Argument where
  | certTags
  | scene
  | action
  | level
  | timeoutms
  | bindtids
  | unbindtids
  | uiName
  | type
  | uid
  | pid
  | files
  | cpulevel
  | iolevel
  | gpulevel
  | cancelcpu
  | cancelio
  | cancelthread
  | cancelgpu
  | data

inductive Value where
  | number (q : ℚ)
  | numbers (qs : List ℚ)
  | string (s : StdString)
  | strings (ss : List StdString)
  | certTags (tags : List (StdString × StdString))
  /-- what the receiver's `cJSON_Parse` makes of a text, or an item that is not of the type asked for -/
  | document (item : Option Json)

/-- The arguments that are present. -/
def present (arguments : List (Argument × Option Value)) : List (Argument × Value) :=
  arguments.filterMap fun a => a.2.map (a.1, ·)

/-- A list without elements counts as absent. -/
def nonempty {α : Type} (value : List α → Value) (xs : List α) : Option Value :=
  if xs = [] then none else some (value xs)

/-! ### JSON -/

section Read

def itemNumber : Json → Option ℚ
  | .number (.finite d) => some d.value
  | _ => none

def itemString : Json → Option StdString
  | .string s => some s
  | _ => none

def itemMembers : Json → List (StdString × Json)
  | .object members => members
  | _ => []

def itemArray : Json → Option (List Json)
  | .array items => some items
  | _ => none

variable (doc : Json)

/-- The first item of the name. -/
def getObjectItem (name : String) : Option Json :=
  ((itemMembers doc).find? fun member => member.1 = key name).map Prod.snd

def numberAt (name : String) : Option Value :=
  ((getObjectItem doc name).bind itemNumber).map .number

/-- The array of the name, of which every element must be read. -/
def arrayAt {α : Type} (element : Json → Option α) (value : List α → Value) (name : String) :
    Option Value :=
  (getObjectItem doc name).bind fun item =>
    match (itemArray item).bind fun items => items.mapM element with
    | some xs => nonempty value xs
    | none => some (.document (some item))

def numbersAt (name : String) : Option Value := arrayAt doc itemNumber .numbers name

def stringAt (name : String) : Option Value :=
  ((getObjectItem doc name).bind itemString).map .string

def stringsAt (name : String) : Option Value := arrayAt doc itemString .strings name

def itemCertTag (item : Json) : Option (StdString × StdString) :=
  match (getObjectItem item "manufacture").bind itemString, (getObjectItem item "cert").bind itemString with
  | some manufacture, some cert => some (manufacture, cert)
  | _, _ => none

def certTagsAt (name : String) : Option Value := arrayAt doc itemCertTag .certTags name

/-- The object before the version and the function id were added at its end. -/
def dataAt : Option Value :=
  let members := itemMembers doc
  let added := members.drop (members.length - 2)
  if added.map Prod.fst = [key "jsonVersion", key "funcid"] then
    some (.document (some (.object (members.take (members.length - 2)))))
  else none

/-- The arguments that the document carries. -/
def jsonArguments : ClientCall → List (Argument × Value)
  | .checkPermission _ _ => present [(.certTags, certTagsAt doc "certTags")]
  | .requestCpuHighFreq _ _ _ _ =>
    present [(.scene, numberAt doc "scene"), (.action, numberAt doc "action"),
      (.level, numberAt doc "cpulevel"), (.timeoutms, numberAt doc "timeoutMs")]
  | .requestGpuHighFreq _ _ _ _ =>
    present [(.scene, numberAt doc "scene"), (.action, numberAt doc "action"),
      (.level, numberAt doc "gpulevel"), (.timeoutms, numberAt doc "timeoutMs")]
  | .requestHighIOFreq _ _ _ _ =>
    present [(.scene, numberAt doc "scene"), (.action, numberAt doc "action"),
      (.level, numberAt doc "iolevel"), (.timeoutms, numberAt doc "timeoutMs")]
  | .requestCpuCoreForThread _ _ _ _ _ =>
    present [(.scene, numberAt doc "scene"), (.action, numberAt doc "action"),
      (.bindtids, numbersAt doc "bindtids"), (.timeoutms, numberAt doc "timeoutMs")]
  | .cancelCpuCoreForThread _ _ => present [(.unbindtids, numbersAt doc "unbindtids")]
  | .requestScreenResolution _ _ =>
    present [(.level, numberAt doc "level"), (.uiName, stringAt doc "uiName")]
  | .registerANRCallback | .registerSystemEventCallback =>
    present [(.type, numberAt doc "type"), (.uid, numberAt doc "uid"), (.pid, numberAt doc "pid")]
  | .registerBootPreloadResource _ => present [(.files, stringsAt doc "filelist")]
  | .requestUnifyCpuIOThreadCoreGpu _ _ _ _ _ _ _ _ =>
    present [(.scene, numberAt doc "scene"), (.action, numberAt doc "action"),
      (.cpulevel, numberAt doc "cpulevel"), (.iolevel, numberAt doc "iolevel"),
      (.gpulevel, numberAt doc "gpulevel"), (.bindtids, numbersAt doc "bindtids"),
      (.timeoutms, numberAt doc "timeoutMs")]
  | .cancelUnifyCpuIOThreadCoreGpu _ _ _ _ _ _ =>
    present [(.cancelcpu, numberAt doc "cpulevel"), (.cancelio, numberAt doc "iolevel"),
      (.cancelgpu, numberAt doc "gpulevel"), (.cancelthread, numberAt doc "cancelthread"),
      (.unbindtids, numbersAt doc "unbindtids")]
  | .configure _ | .getParameters _ => present [(.data, dataAt doc)]
  | .cancelCpuHighFreq | .cancelGpuHighFreq | .cancelHighIOFreq | .resetScreenResolution
  | .terminateApp => []

end Read

/-! ### Protobuf -/

def intValue (x : JInt) : Option Value := some (.number x.toInt)

def tidsValue (tids : List JInt) : Option Value :=
  nonempty .numbers (tids.map fun tid => (tid.toInt : ℚ))

section Carries
variable (cJSON_Parse : StdString → Option Json)

/-- The arguments that the message carries. -/
def protobufArguments : Message → List (Argument × Value)
  | .CheckPermission request =>
    present [(.certTags,
      nonempty .certTags (request.certTags.map fun tag => (tag.manufacture, tag.cert)))]
  | .HighFreq request =>
    present [(.scene, intValue request.scene), (.action, some (.number request.action.toInt)),
      (.level, intValue request.level), (.timeoutms, intValue request.timeoutMs)]
  | .RequestCPUCoreForThread request =>
    present [(.scene, intValue request.scene), (.action, some (.number request.action.toInt)),
      (.bindtids, tidsValue request.bindtids), (.timeoutms, intValue request.timeoutMs)]
  | .CancelCPUCoreForThread request => present [(.unbindtids, tidsValue request.bindtids)]
  | .RequestScreenResolution request =>
    present [(.level, intValue request.level), (.uiName, some (.string request.uiName))]
  | .RegisterCallback request =>
    present [(.type, intValue request.type), (.uid, intValue request.uid), (.pid, intValue request.pid)]
  | .RequestBootPreLoadResource request => present [(.files, nonempty .strings request.filelist)]
  | .RequestUnifyCPUIOThreadCore request =>
    present [(.scene, intValue request.scene), (.action, some (.number request.action.toInt)),
      (.cpulevel, intValue request.cpulevel), (.iolevel, intValue request.iolevel),
      (.gpulevel, request.gpulevel.bind intValue), (.bindtids, tidsValue request.bindtids),
      (.timeoutms, intValue request.timeoutMs)]
  | .CancelUnifyCPUIOThreadCore request =>
    present [(.cancelcpu, intValue request.cancelcpu), (.cancelio, intValue request.cancelio),
      (.cancelgpu, request.cancelgpu.bind intValue), (.cancelthread, intValue request.cancelthread),
      (.unbindtids, tidsValue request.bindtids)]
  | .Configuration request => present [(.data, some (.document (cJSON_Parse request.data)))]
  | .GetParameters request => present [(.data, some (.document (cJSON_Parse request.data)))]
  | .none => []

/-- The document and the message carry the same request, or there is none in both encodings. -/
def SameDocument (env : ClientEnv) (c : ClientCall) : Prop :=
  match jsonBody env cJSON_Parse c, protobufBody env c with
  | .body doc, .body request => jsonArguments doc c = protobufArguments cJSON_Parse request
  | .refused ret, .refused ret' => ret = ret'
  | _, _ => False

/-- The integer has at most 53 significant binary digits. -/
def Exact53 (z : Int) : Prop := ∃ (m : Int) (k : Nat), |m| ≤ 2 ^ 53 ∧ z = m * 2 ^ k

/-- The text is that of an object without numbers too large for a double. -/
def ParsesToObject (data : Option StdString) : Prop :=
  ∃ text members, data = some text ∧ cJSON_Parse (c_str text) = some (.object members) ∧
    (Json.object members).isFinite = true

/-- What a document and a message can carry alike. -/
def PortableDocument (env : ClientEnv) : ClientCall → Prop
  | .checkPermission manufactures certs =>
    manufactures.length = certs.length → ∀ s ∈ manufactures ++ certs, 0 ∉ s
  | .requestCpuHighFreq _ action _ _ | .requestGpuHighFreq _ action _ _
  | .requestHighIOFreq _ action _ _ | .requestUnifyCpuIOThreadCoreGpu _ action _ _ _ _ _ _ =>
    Exact53 action.toInt
  | .requestCpuCoreForThread _ action bindtids bindlen _ =>
    Exact53 action.toInt ∧ (0 < bindlen.toInt → bindtids.isSome)
  | .requestScreenResolution _ uiName => 0 ∉ uiName
  | .registerANRCallback | .registerSystemEventCallback => 0 ≤ env.getuid.toInt
  | .registerBootPreloadResource files => files.length < 2 ^ 31 ∧ ∀ s ∈ files, 0 ∉ s
  | .configure data | .getParameters data => ParsesToObject cJSON_Parse data
  | _ => True

end Carries

/-! ### Reading a document that was built -/

section Lookup

theorem getObjectItem_cons {k : StdString} {name : String} {item : Json}
    {members : List (StdString × Json)} :
    getObjectItem (.object ((k, item) :: members)) name =
      if k = key name then some item else getObjectItem (.object members) name := by
  by_cases h : k = key name
  · simp [getObjectItem, itemMembers, h]
  · simp [getObjectItem, itemMembers, h]

theorem isFloat_toInt32 (x : JInt) : IsFloat 53 (-1074) (x.toInt : ℚ) := by
  have hlt := BitVec.toInt_lt (x := x)
  have hle := BitVec.le_toInt (x := x)
  exact isFloat_of_abs_le (by norm_num) (abs_le.mpr ⟨by omega, by omega⟩)

theorem isFloat_toNat32 (x : JInt) : IsFloat 53 (-1074) (x.toNat : ℚ) := by
  have hlt := x.isLt
  have hfloat : IsFloat 53 (-1074) ((x.toNat : Int) : ℚ) :=
    isFloat_of_abs_le (by norm_num) (abs_le.mpr ⟨by omega, by omega⟩)
  rwa [Int.cast_natCast] at hfloat

theorem exact53_iff {z : Int} : (Double.nearest z).value = z ↔ Exact53 z :=
  nearest_value_eq_iff.trans (isFloat_intCast (by norm_num) z)

theorem nearest_toInt32 (x : JInt) : (Double.nearest (x.toInt : ℚ)).value = x.toInt :=
  nearest_value_eq_iff.mpr (isFloat_toInt32 x)

theorem finiteMembers_append (members members' : List (StdString × Json)) :
    Json.finiteMembers (members ++ members') =
      (Json.finiteMembers members && Json.finiteMembers members') := by
  induction members with
  | nil => rfl
  | cons member members ih =>
    rw [List.cons_append, Json.finiteMembers, Json.finiteMembers, ih, Bool.and_assoc]

theorem finiteItems_map {α : Type} {f : α → Json} (h : ∀ a, (f a).isFinite = true) (as : List α) :
    Json.finiteItems (as.map f) = true := by
  induction as with
  | nil => rfl
  | cons a as ih => rw [List.map_cons, Json.finiteItems, h, ih, Bool.and_self]

theorem finiteItems_zipWith {α β : Type} (f : α → β → Json) (h : ∀ a b, (f a b).isFinite = true)
    (as : List α) (bs : List β) : Json.finiteItems (List.zipWith f as bs) = true := by
  induction as generalizing bs with
  | nil => rfl
  | cons a as ih =>
    cases bs with
    | nil => rfl
    | cons b bs => rw [List.zipWith_cons_cons, Json.finiteItems, h, ih, Bool.and_self]

theorem finite_tids (name : String) (p : Option (Delivery JInt)) (len : JInt) :
    Json.finiteMembers (tids name p len) = true := by
  unfold tids
  split
  · rw [Json.finiteMembers, Json.isFinite, finiteItems_map fun _ => rfl]
    rfl
  · rfl

theorem finite_number (name : String) (z : Int) : (number name z).2.isFinite = true := rfl

theorem printed_object {members : List (StdString × Json)} (h : Json.finiteMembers members = true) :
    (Json.object members).printed = .object members :=
  (Json.printed_eq_self_iff _).mpr h

end Lookup

end Hardcoder
