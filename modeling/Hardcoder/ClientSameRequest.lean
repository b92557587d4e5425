import Hardcoder.ClientPortable
import Hardcoder.ClientText

/-! The two encodings of a request as they are sent: the text that `cJSON_Print` returns and the
message of amc.proto. -/

namespace Hardcoder
open Stream cJSON JsonText
set_option autoImplicit false

section Text
variable (heap : Nat → Nat → Bool) (env : ClientEnv) (c : ClientCall)

/-- The body from `HEADER_JSON_VERSION` on; where `cJSON_Print` gives null that pointer is read. -/
def jsonText : Built StdString :=
  match requestItem env c with
  | .body item =>
    match print heap true item with
    | .ok text => .body text
    | _ => .undefined
  | .refused ret => .refused ret
  | .undefined => .undefined

/-- The message is what the request function sends before `HEADER_JSON_VERSION`. -/
def SendsMessage (request : Message) : Prop :=
  ∀ tid timestamp, env.sendCall tid timestamp c = env.sendBody tid timestamp c.funcid request

/-- The two bodies carry the same request, or there is none in both encodings. -/
def SameRequest : Prop :=
  match jsonText heap env c, protobufBody env c with
  | .body text, .body request => SendsMessage env c request ∧
    ∃ doc, parsedJson text = some doc ∧ jsonArguments doc c = protobufArguments parsedJson request
  | .refused ret, .refused ret' => ret = ret'
  | _, _ => False

/-- What a text and a message can carry alike. -/
def Portable : Prop := PortableDocument parsedJson env c ∧ CleanStrings c

/-- `cJSON_Print` returns the text of the request, if there is one. -/
def Printed : Prop := ∀ item, requestItem env c = .body item → ∃ text, print heap true item = .ok text

end Text

/-! ### What is seen of a cut -/

section Cuts

theorem mapM_position {α β : Type} {f : α → Option β} {before behind : List α} {a : α} {bs : List β}
    (h : (before ++ a :: behind).mapM f = some bs) : ∃ b, f a = some b ∧ bs[before.length]? = some b := by
  induction before generalizing bs with
  | nil =>
    rw [List.nil_append, List.mapM_cons] at h
    obtain ⟨b, hb, h⟩ := Option.bind_eq_some_iff.mp h
    obtain ⟨bs', -, h⟩ := Option.bind_eq_some_iff.mp h
    cases h
    exact ⟨b, hb, rfl⟩
  | cons a' before ih =>
    rw [List.cons_append, List.mapM_cons] at h
    obtain ⟨b', -, h⟩ := Option.bind_eq_some_iff.mp h
    obtain ⟨bs', hbs', h⟩ := Option.bind_eq_some_iff.mp h
    cases h
    obtain ⟨b, hb, hposition⟩ := ih hbs'
    exact ⟨b, hb, hposition⟩

/-- The member behind others of other names is found. -/
theorem getObjectItem_behind {before behind : List (StdString × Item)} {name : String} {item : Item}
    (h : ∀ m ∈ before, m.1 ≠ key name) :
    getObjectItem (toJson (.object (nulledMembers before ++ (key name, item) :: behind))) name =
      some (toJson item) := by
  induction before with
  | nil => exact getObjectItem_cons.trans (if_pos rfl)
  | cons member before ih =>
    obtain ⟨hmember, hbefore⟩ := List.forall_mem_cons.mp h
    exact getObjectItem_cons.trans ((if_neg hmember).trans (ih hbefore))

theorem ofItems_eq_append {items : List Json} {before behind : List Item} {item : Item}
    (h : ofItems items = before ++ item :: behind) :
    ∃ json, items[before.length]? = some json ∧ ofJson json = item := by
  induction before generalizing items with
  | nil =>
    cases items with
    | nil => cases h
    | cons json items => exact ⟨json, rfl, (List.cons.inj h).1⟩
  | cons item' before ih =>
    cases items with
    | nil => cases h
    | cons json items => exact ih (List.cons.inj h).2

section Arrays
variable {α β : Type} {f : α → Json} {g : α → β} {element : Json → Option β} {value : List β → Value}

/-- An array with a cut element is not read as the one that was built. -/
theorem arrayAt_cut {doc : Json} {name : String} {as : List α} {bs : List β} {parsed : Item}
    (hcut : Cut (ofJson (.array (as.map f))) parsed) (hget : getObjectItem doc name = some (toJson parsed))
    (helement : ∀ a ∈ as, ∀ item, Cut (ofJson (f a)) item → element (toJson item) ≠ some (g a))
    (hvalue : ∀ xs ys, value xs = value ys → xs = ys) (hdocument : ∀ xs item, value xs ≠ .document item)
    (hbs : bs <+: as.map g) : arrayAt doc element value name ≠ nonempty value bs := by
  intro heq
  generalize hwhole : ofJson (.array (as.map f)) = whole at hcut
  cases hcut with
  | string _ _ => cases hwhole
  | name _ _ => cases hwhole
  | member _ => cases hwhole
  | @element before item item' _ behind hcut =>
    obtain ⟨json, hjson, rfl⟩ := ofItems_eq_append (Doc.array.inj hwhole)
    rw [List.getElem?_map] at hjson
    obtain ⟨a, ha, rfl⟩ := Option.map_eq_some_iff.mp hjson
    have hread : (itemArray (toJson (Doc.array (nulledItems before ++ item' :: behind)))).bind
        (fun items => items.mapM element) = (toItems (nulledItems before) ++ toJson item' :: toItems behind).mapM element := by
      rw [toJson, toItems_append]
      rfl
    rw [arrayAt, hget, Option.bind_some, hread] at heq
    unfold nonempty at heq
    cases hxs : (toItems (nulledItems before) ++ toJson item' :: toItems behind).mapM element with
    | none =>
      rw [hxs] at heq
      dsimp only at heq
      split at heq
      · cases heq
      · exact hdocument bs _ (Option.some.inj heq).symm
    | some xs =>
      obtain ⟨x, hx, hposition⟩ := mapM_position hxs
      rw [length_toItems, length_nulledItems] at hposition
      have hne : xs ≠ [] := by
        rintro rfl
        cases hposition
      rw [hxs] at heq
      dsimp only at heq
      rw [if_neg hne] at heq
      split at heq
      · cases heq
      · obtain rfl := hvalue xs bs (Option.some.inj heq)
        have hg : (as.map g)[before.length]? = some x := by
          obtain ⟨rest, hrest⟩ := hbs
          rw [← hrest]
          exact List.getElem?_append_left ((List.getElem?_eq_some_iff.mp hposition).1) ▸ hposition
        rw [List.getElem?_map, ha] at hg
        obtain rfl := Option.some.inj hg
        exact helement a (List.mem_of_getElem? ha) item' hcut hx

end Arrays

theorem not_lt_c_str {s : StdString} : ¬ s.length < (c_str s).length :=
  Nat.not_lt.mpr (List.takeWhile_prefix _).length_le

theorem itemString_cut {s : StdString} {item : Item} (h : Cut (ofJson (createString s)) item) :
    itemString (toJson item) ≠ some s := by
  intro heq
  cases h with
  | string hcut hlt =>
    obtain rfl := Option.some.inj heq
    exact not_lt_c_str hlt

theorem itemCertTag_eq_some {item : Json} {manufacture cert : StdString}
    (h : itemCertTag item = some (manufacture, cert)) :
    (getObjectItem item "manufacture").bind itemString = some manufacture ∧
      (getObjectItem item "cert").bind itemString = some cert := by
  unfold itemCertTag at h
  split at h
  · cases h
    exact ⟨‹_›, ‹_›⟩
  · cases h

theorem itemCertTag_cut {manufacture cert : StdString} {item : Item}
    (h : Cut (ofJson (certTag manufacture cert)) item) :
    itemCertTag (toJson item) ≠ some (manufacture, cert) := by
  intro heq
  have hne : key "manufacture" ≠ key "cert" := by decide
  obtain ⟨hmanufacture, hcert⟩ := itemCertTag_eq_some heq
  generalize hwhole : ofJson (certTag manufacture cert) = whole at h
  cases h with
  | string _ _ => cases hwhole
  | element _ => cases hwhole
  | @name before name _ item _ behind _ hcut _ =>
    have hmem : (name, item) ∈ before ++ (name, item) :: behind :=
      List.mem_append_right _ List.mem_cons_self
    rw [← Doc.object.inj hwhole] at hmem
    rcases List.mem_cons.mp hmem with heq | hmem
    · obtain ⟨rfl, -⟩ := Prod.mk.inj heq
      exact hcut (clean_key _ (by decide))
    · obtain ⟨rfl, -⟩ := Prod.mk.inj (List.mem_singleton.mp hmem)
      exact hcut (clean_key _ (by decide))
  | @member before name _ item' _ behind h =>
    have hmembers := Doc.object.inj hwhole
    cases before with
    | nil =>
      cases (List.cons.inj hmembers).1
      have hget := @getObjectItem_behind [] behind "manufacture" item' (fun _ h => absurd h List.not_mem_nil)
      rw [nulledMembers, List.nil_append] at hget
      rw [nulledMembers, List.nil_append, hget] at hmanufacture
      exact itemString_cut h hmanufacture
    | cons member before =>
      obtain ⟨rfl, hbehind⟩ := List.cons.inj hmembers
      cases before with
      | nil =>
        cases (List.cons.inj hbehind).1
        have hget := @getObjectItem_behind [(key "manufacture", ofJson (createString manufacture))] behind
          "cert" item' (List.forall_mem_singleton.mpr hne)
        rw [hget] at hcert
        exact itemString_cut h hcert
      | cons member before =>
        have hnil := (List.cons.inj hbehind).2
        exact absurd hnil.symm (List.append_ne_nil_of_right_ne_nil _ (List.cons_ne_nil _ _))

theorem member_cut {before behind : List (StdString × Json)} {name : String} {item : Json} {parsed : Item}
    (h : Cut (ofJson (.object (before ++ (key name, item) :: behind))) parsed)
    (hbefore : CleanMembers (fun _ => True) before) (hname : name ∈ names)
    (hbehind : CleanMembers (fun _ => True) behind) (hne : ∀ m ∈ before, m.1 ≠ key name) :
    ∃ item', getObjectItem (toJson parsed) name = some (toJson item') ∧ Cut (ofJson item) item' := by
  rw [ofJson, ofMembers_append] at h
  obtain ⟨item', behind', rfl, hcut⟩ := h.of_member hbefore (clean_key name hname) hbehind
  exact ⟨item', getObjectItem_behind ((forall_ofMembers (P := (· ≠ key name))).mpr hne), hcut⟩

theorem header_ne {funcid : BitVec 32} {name : String} (h : key name ∉ [key "jsonVersion", key "funcid"]) :
    ∀ m ∈ header funcid, m.1 ≠ key name := by
  intro m hm hname
  exact h (hname ▸ List.mem_map_of_mem hm)

theorem statusHeader_ne {funcid status : BitVec 32} {name : String}
    (h : key name ∉ [key "jsonVersion", key "funcid", key "status"]) :
    ∀ m ∈ statusHeader funcid status, m.1 ≠ key name := by
  intro m hm hname
  exact h (hname ▸ List.mem_map_of_mem hm)

theorem checkPermission_cut {manufactures certs : List StdString} {parsed : Item}
    (h : Cut (ofJson (.object (header FUNC_CHECK_PERMISSION ++
      [(key "certTags", .array (List.zipWith certTag manufactures certs))]))) parsed) :
    certTagsAt (toJson parsed) "certTags" ≠ nonempty .certTags (List.zip manufactures certs) := by
  rw [certTags_eq_map] at h
  obtain ⟨item, hget, hcut⟩ := member_cut h (clean_header (fun _ _ => trivial) _) (by decide) cleanMembers_nil
    (header_ne (by decide))
  refine arrayAt_cut hcut hget (fun pair _ item => itemCertTag_cut) (fun _ _ => Value.certTags.inj)
    (fun _ _ => Value.noConfusion) ?_
  exact List.map_id _ ▸ List.prefix_rfl

theorem requestScreenResolution_cut {level : JInt} {uiName : StdString} {parsed : Item}
    (h : Cut (ofJson (.object (statusHeader FUNC_SET_SCREEN_RESOLUTION STATUS_REQUEST ++
      [(key "uiName", createString uiName), number "level" level.toInt]))) parsed) :
    stringAt (toJson parsed) "uiName" ≠ some (.string uiName) := by
  intro heq
  obtain ⟨item, hget, hcut⟩ := member_cut h (clean_statusHeader (fun _ _ => trivial) _ _) (by decide)
    ((clean_number (fun _ _ => trivial) (by decide) (abs_toInt_le level (by decide))).mpr cleanMembers_nil)
    (statusHeader_ne (by decide))
  rw [stringAt, hget] at heq
  obtain ⟨s, hs, hvalue⟩ := Option.map_eq_some_iff.mp heq
  obtain rfl := Value.string.inj hvalue
  exact itemString_cut hcut hs

theorem registerBootPreloadResource_cut {files files' : List StdString} {parsed : Item}
    (h : Cut (ofJson (.object (statusHeader FUNC_REG_PRELOAD_BOOT_RESOURCE STATUS_NONE ++
      [(key "filelist", .array (files.map createString))]))) parsed) (hfiles : files' <+: files) :
    stringsAt (toJson parsed) "filelist" ≠ nonempty .strings files' := by
  obtain ⟨item, hget, hcut⟩ := member_cut h (clean_statusHeader (fun _ _ => trivial) _ _) (by decide)
    cleanMembers_nil (statusHeader_ne (by decide))
  refine arrayAt_cut hcut hget (fun file _ item => itemString_cut) (fun _ _ => Value.strings.inj)
    (fun _ _ => Value.noConfusion) ?_
  exact (List.map_id files).symm ▸ hfiles

/-- The object that was extended is not found in a text that is cut. -/
theorem addHeaderItem_cut {funcid : BitVec 32} {item parsed : Item}
    (h : Cut (addHeaderItem funcid item) parsed) :
    dataAt (toJson parsed) ≠ some (.document (some (toJson item))) := by
  intro heq
  unfold dataAt at heq
  dsimp only at heq
  split at heq
  · have hobject := Option.some.inj (Value.document.inj (Option.some.inj heq))
    cases item with
    | object members =>
      obtain ⟨parsed', rfl, hne⟩ := h.toMembers_ne (clean_headerItems funcid)
      have hmembers := Json.object.inj hobject
      refine hne ((toMembers parsed').drop ((toMembers parsed').length - 2)) ?_
      rw [← hmembers]
      exact (List.take_append_drop _ _).symm
    | _ => cases hobject
  · cases heq

theorem present_singleton_inj {a : Argument} {v w : Option Value} (h : present [(a, v)] = present [(a, w)]) :
    v = w := by
  cases v <;> cases w <;> simp_all [present]

theorem present_pair_inj {a b : Argument} (hab : a ≠ b) {v v' w w' : Option Value}
    (h : present [(a, v), (b, w)] = present [(a, v'), (b, w')]) : w = w' := by
  cases v <;> cases v' <;> cases w <;> cases w' <;> simp_all [present]

/-- A text whose strings are cut is not the request. -/
theorem not_same_of_cut {env : ClientEnv} {c : ClientCall} {item parsed : Item}
    {request : Message} (hitem : requestItem env c = .body item) (hcut : Cut item parsed)
    (hproto : protobufBody env c = .body request) :
    jsonArguments (toJson parsed) c ≠ protobufArguments parsedJson request := by
  have hdata {funcid : BitVec 32} {data : Option StdString} (hitem : parsedItem funcid data = .body item) :
      ∃ text, data = some text ∧ dataAt (toJson parsed) ≠ some (.document (parsedJson (c_str text))) := by
    obtain ⟨text, item', rfl, hparse, rfl⟩ := requestItem_data hitem
    refine ⟨text, rfl, ?_⟩
    rw [parsedJson, hparse]
    exact addHeaderItem_cut hcut
  have hbuilt (hnot : ∀ data, c ≠ .configure data ∧ c ≠ .getParameters data) :
      ¬ Legible c ∧ ∃ body, jsonRequest env (fun _ => none) c = .body body ∧ Cut (ofJson body) parsed := by
    obtain ⟨body, hbody, rfl⟩ := requestItem_built hitem hnot
    exact ⟨fun h => hcut.not_clean ((clean_body (fun _ _ => trivial) hbody hnot).mpr h), body, hbody, hcut⟩
  cases c
  case configure data =>
    obtain ⟨text, rfl, hne⟩ := hdata hitem
    cases hproto
    exact fun heq => hne (present_singleton_inj heq)
  case getParameters data =>
    obtain ⟨text, rfl, hne⟩ := hdata hitem
    cases hproto
    exact fun heq => hne (present_singleton_inj heq)
  case checkPermission manufactures certs =>
    obtain ⟨hlegible, body, hbody, hcut⟩ := hbuilt fun _ => ⟨ClientCall.noConfusion, ClientCall.noConfusion⟩
    have htags : manufactures ≠ [] ∧ manufactures.length = certs.length := by
      by_contra hnone
      refine hlegible fun hlen s hs => ?_
      obtain rfl : manufactures = [] := not_not.mp fun hne => hnone ⟨hne, hlen⟩
      obtain rfl := List.eq_nil_of_length_eq_zero hlen.symm
      cases hs
    cases hbody
    cases hproto
    rw [if_pos htags] at hcut
    intro heq
    rw [jsonArguments, protobufArguments, if_pos htags, zipWith_mk] at heq
    exact checkPermission_cut hcut (present_singleton_inj heq)
  case requestScreenResolution level uiName =>
    obtain ⟨-, body, hbody, hcut⟩ := hbuilt fun _ => ⟨ClientCall.noConfusion, ClientCall.noConfusion⟩
    cases hbody
    cases hproto
    exact fun heq => requestScreenResolution_cut hcut (present_pair_inj Argument.noConfusion heq)
  case registerBootPreloadResource files =>
    obtain ⟨hlegible, body, hbody, hcut⟩ := hbuilt fun _ => ⟨ClientCall.noConfusion, ClientCall.noConfusion⟩
    have hfiles : files ≠ [] := by
      rintro rfl
      exact hlegible fun file hfile => absurd hfile List.not_mem_nil
    cases hbody
    cases hproto
    rw [if_pos hfiles] at hcut
    exact fun heq => registerBootPreloadResource_cut hcut (List.take_prefix _ _) (present_singleton_inj heq)
  all_goals exact absurd trivial (hbuilt fun _ => ⟨ClientCall.noConfusion, ClientCall.noConfusion⟩).1

end Cuts

theorem clean_requestItem {env : ClientEnv} {c : ClientCall} {item : Item}
    (hitem : requestItem env c = .body item) : item.All (fun _ => True) Clean ↔ CleanStrings c := by
  have hdata {funcid : BitVec 32} {data : Option StdString} (hitem : parsedItem funcid data = .body item) :
      item.All (fun _ => True) Clean ↔ CleanStrings (.configure data) := by
    obtain ⟨text, parsed, rfl, hparse, rfl⟩ := requestItem_data hitem
    rw [clean_addHeaderItem]
    refine ⟨?_, fun h => h text rfl parsed hparse⟩
    rintro hclean text' htext parsed' hparse'
    cases htext
    cases hparse.symm.trans hparse'
    exact hclean
  have hbuilt (hnot : ∀ data, c ≠ .configure data ∧ c ≠ .getParameters data) :
      item.All (fun _ => True) Clean ↔ Legible c := by
    obtain ⟨body, hbody, rfl⟩ := requestItem_built hitem hnot
    exact clean_body (fun _ _ => trivial) hbody hnot
  cases c
  case configure data => exact hdata hitem
  case getParameters data => exact hdata hitem
  all_goals exact hbuilt fun _ => ⟨ClientCall.noConfusion, ClientCall.noConfusion⟩

section Same
variable {heap : Nat → Nat → Bool} {env : ClientEnv} {c : ClientCall}

/-- Without a body in JSON there is a refusal in both encodings, or a null pointer. -/
theorem sameRequest_of_not_body (h : ∀ item, requestItem env c ≠ .body item) :
    SameRequest heap env c ↔ Portable env c := by
  have hdata {funcid : BitVec 32} {data : Option StdString} (hrequest : requestItem env c = parsedItem funcid data) :
      ¬ SameRequest heap env c ∧ ¬ ParsesToObject parsedJson data := by
    have hundefined : parsedItem funcid data = .undefined := by
      cases hitem : parsedItem funcid data with
      | body item => exact absurd (hrequest.trans hitem) (h item)
      | refused ret =>
        unfold parsedItem at hitem
        split at hitem
        · cases hitem
        · split at hitem <;> cases hitem
      | undefined => rfl
    constructor
    · unfold SameRequest jsonText
      rw [hrequest, hundefined]
      exact id
    · rintro ⟨text, members, rfl, hobject, -⟩
      obtain ⟨item, hparse, -⟩ := parsedJson_eq_some hobject
      rw [parsedItem, hparse] at hundefined
      cases hundefined
  cases c
  case configure data =>
    obtain ⟨hsame, hobject⟩ := hdata rfl
    exact iff_of_false hsame fun h => hobject h.1
  case getParameters data =>
    obtain ⟨hsame, hobject⟩ := hdata rfl
    exact iff_of_false hsame fun h => hobject h.1
  case cancelCpuCoreForThread unbindtids unbindlen =>
    refine iff_of_true ?_ ⟨trivial, trivial⟩
    by_cases hrefused : unbindlen.toInt ≤ 0 ∨ unbindtids.isNone
    · have hitem : requestItem env (.cancelCpuCoreForThread unbindtids unbindlen) = .refused (-2) := by
        unfold requestItem
        dsimp only
        rw [jsonRequest, if_pos hrefused]
      have hproto : protobufBody env (.cancelCpuCoreForThread unbindtids unbindlen) = .refused (-2) :=
        if_pos hrefused
      unfold SameRequest jsonText
      rw [hitem, hproto]
    · have hitem : requestItem env (.cancelCpuCoreForThread unbindtids unbindlen) =
          .body (ofJson (.object (statusHeader FUNC_CANCEL_CPU_CORE_FOR_THREAD STATUS_RESET ++
            tids "unbindtids" unbindtids unbindlen))) := by
        unfold requestItem
        dsimp only
        rw [jsonRequest, if_neg hrefused]
      exact absurd hitem (h _)
  all_goals exact absurd rfl (h _)

section Printed
variable {item : Item} {text : StdString}

theorem jsonText_of_print (hitem : requestItem env c = .body item) (hprint : print heap true item = .ok text) :
    jsonText heap env c = .body text := by
  unfold jsonText
  rw [hitem]
  dsimp only
  rw [hprint]

theorem sameRequest_of_clean (hitem : requestItem env c = .body item)
    (hprint : print heap true item = .ok text) (hclean : CleanStrings c) :
    SameRequest heap env c ↔ SameDocument parsedJson env c := by
  obtain ⟨body, hbody, hread⟩ := jsonBody_text hitem hclean hprint
  have hmessage {request : Message} (hproto : protobufBody env c = .body request)
      (hsame : SameDocument parsedJson env c) : SendsMessage env c request := by
    refine sendCall_of_body hproto fun files hc => ?_
    subst hc
    exact ((sameDocument_iff_portable env parsedJson _).mp hsame).1
  unfold SameRequest
  rw [jsonText_of_print hitem hprint]
  cases hproto : protobufBody env c with
  | body request =>
    have hdocument : SameDocument parsedJson env c ↔
        jsonArguments body c = protobufArguments parsedJson request := by
      unfold SameDocument
      rw [hbody, hproto]
    constructor
    · rintro ⟨-, doc, hdoc, hsame⟩
      obtain rfl := Option.some.inj (hread.symm.trans hdoc)
      exact hdocument.mpr hsame
    · exact fun hsame => ⟨hmessage hproto hsame, body, hread, hdocument.mp hsame⟩
  | refused ret =>
    unfold SameDocument
    rw [hbody, hproto]
  | undefined =>
    unfold SameDocument
    rw [hbody, hproto]

theorem clean_of_same (hitem : requestItem env c = .body item)
    (hprint : print heap true item = .ok text) (hsame : SameRequest heap env c) : CleanStrings c := by
  unfold SameRequest at hsame
  rw [jsonText_of_print hitem hprint] at hsame
  cases hproto : protobufBody env c with
  | body request =>
    rw [hproto] at hsame
    obtain ⟨-, doc, hdoc, hsame⟩ := hsame
    obtain ⟨parsed, hparse, rfl⟩ := parsedJson_eq_some hdoc
    have htext : text = printedText true 0 item := text_of_print hprint
    rw [htext] at hparse
    rcases parse_printed_or hparse with ⟨hclean, -⟩ | hcut
    · exact (clean_requestItem hitem).mp hclean
    · exact absurd hsame (not_same_of_cut hitem hcut hproto)
  | refused ret =>
    rw [hproto] at hsame
    exact hsame.elim
  | undefined =>
    rw [hproto] at hsame
    exact hsame.elim

end Printed

theorem printed_of_same (hsame : SameRequest heap env c) : Printed heap env c := by
  intro item hitem
  unfold SameRequest jsonText at hsame
  rw [hitem] at hsame
  cases hprint : print heap true item with
  | ok text => exact ⟨text, rfl⟩
  | outside =>
    dsimp only at hsame
    rw [hprint] at hsame
    exact hsame.elim
  | failed =>
    dsimp only at hsame
    rw [hprint] at hsame
    exact hsame.elim

theorem portable_of_same (hsame : SameRequest heap env c) : Portable env c := by
  by_cases hbody : ∃ item, requestItem env c = .body item
  · obtain ⟨item, hitem⟩ := hbody
    obtain ⟨text, hprint⟩ := printed_of_same hsame item hitem
    have hclean := clean_of_same hitem hprint hsame
    exact ⟨(sameDocument_iff_portable env parsedJson c).mp
      ((sameRequest_of_clean hitem hprint hclean).mp hsame), hclean⟩
  · exact (sameRequest_of_not_body fun item h => hbody ⟨item, h⟩).mp hsame

/-- If memory is never short, only the length of the text matters. -/
theorem printed_iff (hheap : ∀ i n, heap i n = true) (hclean : CleanStrings c) :
    Printed heap env c ↔
      ∀ item, requestItem env c = .body item → (printedText true 0 item).length + 2 ≤ INT_MAX := by
  refine forall_congr' fun item => forall_congr' fun hitem => ?_
  rw [print_eq hheap ((clean_requestItem hitem).mpr hclean)]
  split
  · exact iff_of_true ⟨_, rfl⟩ ‹_›
  · exact iff_of_false (fun ⟨_, h⟩ => nomatch h) ‹_›

end Same

theorem sameRequest_iff_portable (heap : Nat → Nat → Bool) (env : ClientEnv) (c : ClientCall) :
    SameRequest heap env c ↔ Portable env c ∧ Printed heap env c := by
  refine ⟨fun hsame => ⟨portable_of_same hsame, printed_of_same hsame⟩, ?_⟩
  rintro ⟨⟨hportable, hclean⟩, hprinted⟩
  by_cases hbody : ∃ item, requestItem env c = .body item
  · obtain ⟨item, hitem⟩ := hbody
    obtain ⟨text, hprint⟩ := hprinted item hitem
    exact (sameRequest_of_clean hitem hprint hclean).mpr ((sameDocument_iff_portable env parsedJson c).mpr hportable)
  · exact (sameRequest_of_not_body fun item h => hbody ⟨item, h⟩).mpr ⟨hportable, hclean⟩

/-- An action of 54 bits is rounded in JSON, the array that is not there is read for protobuf, and
a control character ends the text in JSON. -/
theorem encodings_differ :
    ¬ SameRequest (fun _ _ => true) exampleClient (.requestCpuHighFreq 0 9007199254740993 0 0) ∧
    ¬ SameRequest (fun _ _ => true) exampleClient (.requestCpuCoreForThread 0 0 none 1 0) ∧
    ¬ SameRequest (fun _ _ => true) exampleClient (.requestScreenResolution 0 [1]) := by
  have haction : (9007199254740993 : JLong).toInt = 2 ^ 53 + 1 := by decide
  refine ⟨mt portable_of_same ?_, mt portable_of_same ?_, mt portable_of_same ?_⟩
  · rintro ⟨hexact, -⟩
    rw [PortableDocument, haction] at hexact
    exact not_exact53 hexact
  · rintro ⟨⟨-, hsome⟩, -⟩
    cases hsome (by decide)
  · rintro ⟨-, hclean⟩
    exact absurd hclean (by decide : ¬ Clean (c_str [1]))

end Hardcoder
