import Hardcoder.ClientEncodings
import Hardcoder.RequestFidelity
import Mathlib.Data.List.TakeWhile

/-! Which requests a document and a message carry alike. -/

namespace Hardcoder
open Stream cJSON
set_option autoImplicit false

section Same
variable {env : ClientEnv} {cJSON_Parse : StdString → Option Json}

theorem numberAt_cons {n name : String} {z : Int} {members : List (StdString × Json)} :
    numberAt (.object (number n z :: members)) name =
      if key n = key name then some (.number (Double.nearest z).value)
      else numberAt (.object members) name := by
  unfold numberAt number
  rw [getObjectItem_cons]
  split
  · rfl
  · rfl

theorem numberAt_cons_of_ne {k : StdString} {name : String} (h : k ≠ key name) (item : Json)
    (members : List (StdString × Json)) :
    numberAt (.object ((k, item) :: members)) name = numberAt (.object members) name := by
  rw [numberAt, getObjectItem_cons, if_neg h, numberAt]

theorem getObjectItem_number_of_ne {n name : String} (h : key n ≠ key name) (z : Int)
    (members : List (StdString × Json)) :
    getObjectItem (.object (number n z :: members)) name = getObjectItem (.object members) name := by
  rw [number, getObjectItem_cons, if_neg h]

theorem stringAt_number_of_ne {n name : String} (h : key n ≠ key name) (z : Int)
    (members : List (StdString × Json)) :
    stringAt (.object (number n z :: members)) name = stringAt (.object members) name := by
  rw [stringAt, getObjectItem_number_of_ne h, stringAt]

theorem stringAt_cons_of_eq {k : StdString} {name : String} (h : k = key name) (s : StdString)
    (members : List (StdString × Json)) :
    stringAt (.object ((k, createString s) :: members)) name = some (.string (c_str s)) := by
  rw [stringAt, getObjectItem_cons, if_pos h]
  rfl

theorem highFreq_arguments (scene : JInt) (action : JLong) (level timeoutms : JInt) (funcid : BitVec 32)
    {name : String} (hname : name = "cpulevel" ∨ name = "gpulevel" ∨ name = "iolevel") :
    present [(.scene, numberAt (.object (highFreq funcid name scene action level timeoutms)) "scene"),
      (.action, numberAt (.object (highFreq funcid name scene action level timeoutms)) "action"),
      (.level, numberAt (.object (highFreq funcid name scene action level timeoutms)) name),
      (.timeoutms, numberAt (.object (highFreq funcid name scene action level timeoutms)) "timeoutMs")] =
    [(.scene, .number scene.toInt), (.action, .number (Double.nearest action.toInt).value),
      (.level, .number level.toInt), (.timeoutms, .number timeoutms.toInt)] := by
  unfold highFreq statusHeader header
  rcases hname with rfl | rfl | rfl <;>
    simp [numberAt_cons, key, present, nearest_toInt32]

theorem sameDocument_of_body {c : ClientCall} {item : Json} {request : Message}
    (hjson : jsonRequest env cJSON_Parse c = .body item) (hproto : protobufBody env c = .body request) :
    SameDocument cJSON_Parse env c ↔
      jsonArguments item.printed c = protobufArguments cJSON_Parse request := by
  unfold SameDocument jsonBody
  rw [hjson, hproto]

theorem not_sameDocument_of_undefined {c : ClientCall} (hproto : protobufBody env c = .undefined) :
    ¬ SameDocument cJSON_Parse env c := by
  intro hsame
  unfold SameDocument at hsame
  rw [hproto] at hsame
  cases hbody : jsonBody env cJSON_Parse c with
  | body doc => rwa [hbody] at hsame
  | refused ret => rwa [hbody] at hsame
  | undefined => rwa [hbody] at hsame

theorem same_highFreq {c : ClientCall} {scene : JInt} {action : JLong} {level timeoutms : JInt}
    {funcid : BitVec 32} {name : String} (hname : name = "cpulevel" ∨ name = "gpulevel" ∨ name = "iolevel")
    (hjson : jsonRequest env cJSON_Parse c =
      .body (.object (highFreq funcid name scene action level timeoutms)))
    (hproto : protobufBody env c = .body (.HighFreq
      { scene := scene, level := level, timeoutMs := timeoutms, action := action }))
    (harguments : ∀ doc, jsonArguments doc c =
      present [(.scene, numberAt doc "scene"), (.action, numberAt doc "action"),
        (.level, numberAt doc name), (.timeoutms, numberAt doc "timeoutMs")]) :
    SameDocument cJSON_Parse env c ↔ Exact53 action.toInt := by
  rw [sameDocument_of_body hjson hproto, printed_object rfl, harguments, highFreq_arguments, ← exact53_iff]
  · simp [protobufArguments, present, intValue]
  · exact hname

theorem getObjectItem_tids_of_ne {n name : String} (h : key n ≠ key name) (p : Option (Delivery JInt))
    (len : JInt) (members : List (StdString × Json)) :
    getObjectItem (.object (tids n p len ++ members)) name = getObjectItem (.object members) name := by
  unfold tids
  split
  · rw [List.singleton_append, getObjectItem_cons, if_neg h]
  · rfl

theorem numberAt_tids_of_ne {n name : String} (h : key n ≠ key name) (p : Option (Delivery JInt))
    (len : JInt) (members : List (StdString × Json)) :
    numberAt (.object (tids n p len ++ members)) name = numberAt (.object members) name := by
  rw [numberAt, getObjectItem_tids_of_ne h, numberAt]

theorem itemNumber_createNumber (tid : JInt) : itemNumber (createNumber tid.toInt) = some (tid.toInt : ℚ) :=
  congrArg some (nearest_toInt32 tid)

theorem itemString_createString (s : StdString) : itemString (createString s) = some (c_str s) := rfl

section Arrays
variable {α β : Type} {f : α → Json} {g : α → β} {element : Json → Option β} {value : List β → Value}

theorem arrayAt_number_of_ne {n name : String} (h : key n ≠ key name) (z : Int)
    (members : List (StdString × Json)) :
    arrayAt (.object (number n z :: members)) element value name =
      arrayAt (.object members) element value name := by
  rw [arrayAt, getObjectItem_number_of_ne h, arrayAt]

theorem mapM_element (h : ∀ a, element (f a) = some (g a)) (as : List α) :
    (as.map f).mapM element = some (as.map g) := by
  induction as with
  | nil => rfl
  | cons a as ih =>
    rw [List.map_cons, List.mapM_cons, h, ih]
    rfl

/-- An array that was built is read whole. -/
theorem arrayAt_cons_of_eq {k : StdString} {name : String} (hk : k = key name)
    (h : ∀ a, element (f a) = some (g a)) (as : List α) (members : List (StdString × Json)) :
    arrayAt (.object ((k, .array (as.map f)) :: members)) element value name = nonempty value (as.map g) := by
  rw [arrayAt, getObjectItem_cons, if_pos hk, Option.bind_some, itemArray, Option.bind_some,
    mapM_element h]

end Arrays

theorem numbersAt_number_of_ne {n name : String} (h : key n ≠ key name) (z : Int)
    (members : List (StdString × Json)) :
    numbersAt (.object (number n z :: members)) name = numbersAt (.object members) name :=
  arrayAt_number_of_ne h z members

theorem numbersAt_tids {n : String} (p : Option (Delivery JInt)) (len : JInt)
    {members : List (StdString × Json)} (hnone : numbersAt (.object members) n = none) :
    numbersAt (.object (tids n p len ++ members)) n = tidsValue (addTids p len) := by
  unfold tids addTids
  split
  · exact arrayAt_cons_of_eq rfl itemNumber_createNumber (ints p len) members
  · exact hnone

theorem numbersAt_tids_nil (n : String) (p : Option (Delivery JInt)) (len : JInt) :
    numbersAt (.object (tids n p len)) n = tidsValue (addTids p len) := by
  have hnil : numbersAt (.object []) n = none := rfl
  rw [← numbersAt_tids p len hnil, List.append_nil]

theorem present_cons_iff {a : Argument} {v : Option Value} {l l' : List (Argument × Option Value)} :
    present ((a, v) :: l) = present ((a, v) :: l') ↔ present l = present l' := by
  cases v with
  | none => exact Iff.rfl
  | some v => exact List.cons.injEq _ _ _ _ ▸ and_iff_right rfl

theorem present_number_iff {a : Argument} {q q' : ℚ} {l l' : List (Argument × Option Value)} :
    present ((a, some (.number q)) :: l) = present ((a, some (.number q')) :: l') ↔
      q = q' ∧ present l = present l' := by
  simp [present]

theorem same_requestCpuCoreForThread (scene : JInt) (action : JLong) (bindtids : Option (Delivery JInt))
    (bindlen timeoutms : JInt) :
    SameDocument cJSON_Parse env (.requestCpuCoreForThread scene action bindtids bindlen timeoutms) ↔
      Exact53 action.toInt ∧ (0 < bindlen.toInt → bindtids.isSome) := by
  by_cases hnull : 0 < bindlen.toInt ∧ bindtids.isNone
  · have hproto : protobufBody env (.requestCpuCoreForThread scene action bindtids bindlen timeoutms) =
        .undefined := if_pos hnull
    refine iff_of_false (not_sameDocument_of_undefined hproto) fun hportable => ?_
    have hsome := hportable.2 hnull.1
    rw [Option.isNone_iff_eq_none.mp hnull.2] at hsome
    cases hsome
  · have hproto : protobufBody env (.requestCpuCoreForThread scene action bindtids bindlen timeoutms) =
        .body (.RequestCPUCoreForThread ⟨scene, addTids bindtids bindlen, timeoutms, action⟩) :=
      if_neg hnull
    have hsome : 0 < bindlen.toInt → bindtids.isSome := fun hpos =>
      Option.isSome_iff_ne_none.mpr fun hnone => hnull ⟨hpos, Option.isNone_iff_eq_none.mpr hnone⟩
    rw [sameDocument_of_body rfl hproto, printed_object, and_iff_left hsome]
    · have hnone : numbersAt (.object [number "timeoutMs" timeoutms.toInt]) "bindtids" = none := by
        rw [numbersAt_number_of_ne (by decide)]
        rfl
      simp [jsonArguments, protobufArguments, statusHeader, header, numberAt_cons, key,
        numberAt_tids_of_ne, numbersAt_number_of_ne, numbersAt_tids, hnone, nearest_toInt32, intValue,
        present_cons_iff, present_number_iff, exact53_iff]
    · simp [statusHeader, header, finite_number, Json.finiteMembers, finiteMembers_append, finite_tids]

theorem same_cancelCpuCoreForThread (unbindtids : Option (Delivery JInt)) (unbindlen : JInt) :
    SameDocument cJSON_Parse env (.cancelCpuCoreForThread unbindtids unbindlen) := by
  by_cases hrefused : unbindlen.toInt ≤ 0 ∨ unbindtids.isNone
  · have hjson : jsonRequest env cJSON_Parse (.cancelCpuCoreForThread unbindtids unbindlen) =
        .refused (-2) := if_pos hrefused
    have hproto : protobufBody env (.cancelCpuCoreForThread unbindtids unbindlen) = .refused (-2) :=
      if_pos hrefused
    unfold SameDocument jsonBody
    rw [hjson, hproto]
  · have hjson : jsonRequest env cJSON_Parse (.cancelCpuCoreForThread unbindtids unbindlen) =
        .body (.object (statusHeader FUNC_CANCEL_CPU_CORE_FOR_THREAD STATUS_RESET ++
          tids "unbindtids" unbindtids unbindlen)) := if_neg hrefused
    have hproto : protobufBody env (.cancelCpuCoreForThread unbindtids unbindlen) =
        .body (.CancelCPUCoreForThread ⟨addTids unbindtids unbindlen⟩) := if_neg hrefused
    rw [sameDocument_of_body hjson hproto, printed_object]
    · simp [jsonArguments, protobufArguments, statusHeader, header, key, numbersAt_number_of_ne, numbersAt_tids_nil]
    · simp [statusHeader, header, finite_number, Json.finiteMembers, finite_tids]

theorem same_requestUnifyCpuIOThreadCoreGpu (scene : JInt) (action : JLong) (cpulevel iolevel : JInt)
    (bindtids : Option (Delivery JInt)) (gpulevel bindlen timeoutms : JInt) :
    SameDocument cJSON_Parse env (.requestUnifyCpuIOThreadCoreGpu scene action cpulevel iolevel bindtids
      gpulevel bindlen timeoutms) ↔ Exact53 action.toInt := by
  rw [sameDocument_of_body rfl rfl, printed_object]
  · have hnone : numbersAt (.object [number "timeoutMs" timeoutms.toInt]) "bindtids" = none := by
      rw [numbersAt_number_of_ne (by decide)]
      rfl
    simp [jsonArguments, protobufArguments, statusHeader, header, numberAt_cons, key,
      numberAt_tids_of_ne, numbersAt_number_of_ne, numbersAt_tids, hnone, nearest_toInt32, intValue,
      present_cons_iff, present_number_iff, exact53_iff]
  · simp [statusHeader, header, finite_number, Json.finiteMembers, finiteMembers_append, finite_tids]

theorem same_cancelUnifyCpuIOThreadCoreGpu (cancelcpu cancelio cancelthread : JInt)
    (unbindtids : Option (Delivery JInt)) (unbindlen cancelgpu : JInt) :
    SameDocument cJSON_Parse env (.cancelUnifyCpuIOThreadCoreGpu cancelcpu cancelio cancelthread
      unbindtids unbindlen cancelgpu) := by
  rw [sameDocument_of_body rfl rfl, printed_object]
  · simp [jsonArguments, protobufArguments, statusHeader, header, numberAt_cons, key,
      numbersAt_number_of_ne, numbersAt_tids_nil, nearest_toInt32, intValue]
  · simp [statusHeader, header, finite_number, Json.finiteMembers, finite_tids]

theorem c_str_eq_iff {s : StdString} : c_str s = s ↔ 0 ∉ s := by
  unfold c_str
  rw [List.takeWhile_eq_self_iff]
  exact ⟨fun h hmem => of_decide_eq_true (h 0 hmem) rfl, fun h b hb =>
    decide_eq_true fun hzero => h (hzero ▸ hb)⟩

theorem map_c_str_eq_iff {ss : List StdString} : ss.map c_str = ss ↔ ∀ s ∈ ss, 0 ∉ s := by
  induction ss with
  | nil => simp
  | cons s ss ih => rw [List.map_cons, List.cons.injEq, c_str_eq_iff, ih, List.forall_mem_cons]

theorem same_requestScreenResolution (level : JInt) (uiName : StdString) :
    SameDocument cJSON_Parse env (.requestScreenResolution level uiName) ↔ 0 ∉ uiName := by
  rw [sameDocument_of_body rfl rfl, printed_object rfl, ← c_str_eq_iff]
  simp [jsonArguments, protobufArguments, statusHeader, header, stringAt_number_of_ne,
    stringAt_cons_of_eq, numberAt_cons, numberAt_cons_of_ne, key, nearest_toInt32, intValue, present]

theorem stringsAt_number_of_ne {n name : String} (h : key n ≠ key name) (z : Int)
    (members : List (StdString × Json)) :
    stringsAt (.object (number n z :: members)) name = stringsAt (.object members) name :=
  arrayAt_number_of_ne h z members

theorem certTagsAt_number_of_ne {n name : String} (h : key n ≠ key name) (z : Int)
    (members : List (StdString × Json)) :
    certTagsAt (.object (number n z :: members)) name = certTagsAt (.object members) name :=
  arrayAt_number_of_ne h z members

theorem toNat_eq_toInt_iff {x : JInt} : (x.toNat : Int) = x.toInt ↔ 0 ≤ x.toInt := by
  have hlt := x.isLt
  rw [BitVec.toInt_eq_toNat_cond]
  split <;> omega

theorem same_registerCallback {c : ClientCall} {type : JInt} {funcid : BitVec 32}
    (hc : c = .registerANRCallback ∨ c = .registerSystemEventCallback) (htype : 0 ≤ type.toInt)
    (hjson : jsonRequest env cJSON_Parse c = .body (.object (registerCallback env funcid type)))
    (hproto : protobufBody env c = .body (.RegisterCallback ⟨type, env.getuid, env.getpid⟩)) :
    SameDocument cJSON_Parse env c ↔ 0 ≤ env.getuid.toInt := by
  have harguments (doc : Json) : jsonArguments doc c =
      present [(.type, numberAt doc "type"), (.uid, numberAt doc "uid"), (.pid, numberAt doc "pid")] := by
    rcases hc with rfl | rfl <;> rfl
  have hnat (x : JInt) : (Double.nearest (x.toNat : ℚ)).value = x.toNat :=
    nearest_value_eq_iff.mpr (isFloat_toNat32 x)
  have hfinite : Json.finiteMembers (registerCallback env funcid type) = true := by
    simp [registerCallback, statusHeader, header, finite_number, Json.finiteMembers]
  rw [sameDocument_of_body hjson hproto, printed_object hfinite, harguments, ← toNat_eq_toInt_iff,
    protobufArguments]
  simp [registerCallback, statusHeader, header, numberAt_cons, key, hnat, nearest_toInt32,
    toNat_eq_toInt_iff.mpr htype, intValue, present]
  exact_mod_cast Iff.rfl

theorem present_nonempty_iff {α : Type} {a : Argument} {value : List α → Value} (xs ys : List α)
    (hvalue : ∀ xs ys, value xs = value ys → xs = ys) :
    present [(a, nonempty value xs)] = present [(a, nonempty value ys)] ↔ xs = ys := by
  refine ⟨fun h => ?_, fun h => by rw [h]⟩
  unfold nonempty at h
  by_cases hx : xs = []
  · by_cases hy : ys = []
    · rw [hx, hy]
    · rw [if_pos hx, if_neg hy] at h
      cases h
  · by_cases hy : ys = []
    · rw [if_neg hx, if_pos hy] at h
      cases h
    · rw [if_neg hx, if_neg hy] at h
      injection h with hhead
      exact hvalue xs ys (Prod.mk.inj hhead).2

theorem take_count_eq_iff (files : List StdString) :
    files.map c_str = files.take (BitVec.ofNat 32 files.length : JInt).toInt.toNat ↔
      files.length < 2 ^ 31 ∧ ∀ s ∈ files, 0 ∉ s := by
  by_cases hlength : files.length < 2 ^ 31
  · rw [take_count hlength, map_c_str_eq_iff, and_iff_right hlength]
  · have hcount := BitVec.toInt_eq_toNat_cond (BitVec.ofNat 32 files.length)
    rw [BitVec.toNat_ofNat] at hcount
    refine iff_of_false (fun h => ?_) fun h => hlength h.1
    have hlen := congrArg List.length h
    rw [List.length_map, List.length_take, hcount] at hlen
    split at hlen <;> omega

theorem same_registerBootPreloadResource (files : List StdString) :
    SameDocument cJSON_Parse env (.registerBootPreloadResource files) ↔
      files.length < 2 ^ 31 ∧ ∀ s ∈ files, 0 ∉ s := by
  have hstrings : stringsAt (.object
      (if files ≠ [] then [(key "filelist", .array (files.map createString))] else [])) "filelist" =
        nonempty .strings (files.map c_str) := by
    by_cases hfiles : files = []
    · rw [if_neg (not_not.mpr hfiles), hfiles]
      rfl
    · rw [if_pos hfiles]
      exact arrayAt_cons_of_eq rfl itemString_createString files []
  rw [sameDocument_of_body rfl rfl, printed_object, jsonArguments, protobufArguments]
  · simp only [statusHeader, header, List.cons_append, List.nil_append]
    rw [stringsAt_number_of_ne (by decide), stringsAt_number_of_ne (by decide),
      stringsAt_number_of_ne (by decide), hstrings,
      present_nonempty_iff _ _ fun _ _ h => Value.strings.inj h, take_count_eq_iff]
  · have hitems := finiteItems_map (f := createString) (fun _ => rfl) files
    by_cases hfiles : files = []
    · simp [statusHeader, header, finite_number, Json.finiteMembers, hfiles]
    · simp [statusHeader, header, finite_number, Json.finiteMembers, Json.isFinite, hfiles, hitems]

/-! ### Certificates -/

theorem itemCertTag_certTag (manufacture cert : StdString) :
    itemCertTag (certTag manufacture cert) = some (c_str manufacture, c_str cert) := by
  have hmanufacture : getObjectItem (certTag manufacture cert) "manufacture" =
      some (createString manufacture) := by
    rw [certTag, getObjectItem_cons, if_pos rfl]
  have hcert : getObjectItem (certTag manufacture cert) "cert" = some (createString cert) := by
    rw [certTag, getObjectItem_cons, if_neg (by decide), getObjectItem_cons, if_pos rfl]
  rw [itemCertTag, hmanufacture, hcert]
  rfl

theorem map_c_str_zip (manufactures certs : List StdString) :
    (manufactures.zip certs).map (fun pair => (c_str pair.1, c_str pair.2)) =
      List.zip (manufactures.map c_str) (certs.map c_str) :=
  List.zip_map.symm

theorem zip_c_str_eq_iff {manufactures certs : List StdString} (h : manufactures.length = certs.length) :
    List.zip (manufactures.map c_str) (certs.map c_str) = List.zip manufactures certs ↔
      ∀ s ∈ manufactures ++ certs, 0 ∉ s := by
  rw [List.forall_mem_append, ← map_c_str_eq_iff, ← map_c_str_eq_iff]
  constructor
  · intro hzip
    constructor
    · have hfst := congrArg (List.map Prod.fst) hzip
      rwa [List.map_fst_zip (by simp [h]), List.map_fst_zip h.le] at hfst
    · have hsnd := congrArg (List.map Prod.snd) hzip
      rwa [List.map_snd_zip (by simp [h]), List.map_snd_zip h.ge] at hsnd
  · intro hmaps
    rw [hmaps.1, hmaps.2]

theorem zipWith_mk (manufactures certs : List StdString) :
    (List.zipWith amc.CertTag.mk manufactures certs).map (fun tag => (tag.manufacture, tag.cert)) =
      List.zip manufactures certs := by
  rw [List.map_zipWith]
  rfl

theorem same_checkPermission (manufactures certs : List StdString) :
    SameDocument cJSON_Parse env (.checkPermission manufactures certs) ↔
      (manufactures.length = certs.length → ∀ s ∈ manufactures ++ certs, 0 ∉ s) := by
  have hitems := finiteItems_zipWith certTag (fun _ _ => rfl) manufactures certs
  rw [sameDocument_of_body rfl rfl, printed_object, jsonArguments, protobufArguments]
  · simp only [header, List.cons_append, List.nil_append]
    rw [certTagsAt_number_of_ne (by decide), certTagsAt_number_of_ne (by decide)]
    by_cases htags : manufactures ≠ [] ∧ manufactures.length = certs.length
    · rw [if_pos htags, if_pos htags, certTags_eq_map, certTagsAt,
        arrayAt_cons_of_eq rfl fun pair : StdString × StdString => itemCertTag_certTag pair.1 pair.2,
        map_c_str_zip, zipWith_mk,
        present_nonempty_iff _ _ fun _ _ h => Value.certTags.inj h, zip_c_str_eq_iff htags.2]
      exact ⟨fun h _ => h, fun h => h htags.2⟩
    · rw [if_neg htags, if_neg htags]
      refine iff_of_true rfl fun hlength => ?_
      have hempty : manufactures = [] := not_not.mp fun hne => htags ⟨hne, hlength⟩
      have hcerts : certs = [] := List.eq_nil_of_length_eq_zero (by rw [← hlength, hempty]; rfl)
      simp [hempty, hcerts]
  · by_cases htags : manufactures ≠ [] ∧ manufactures.length = certs.length
    · simp [header, finite_number, Json.finiteMembers, Json.isFinite, htags, hitems]
    · simp [header, finite_number, Json.finiteMembers, htags]

/-! ### Data -/

theorem printedMembers_append (members members' : List (StdString × Json)) :
    Json.printedMembers (members ++ members') =
      Json.printedMembers members ++ Json.printedMembers members' := by
  induction members with
  | nil => rfl
  | cons member members ih =>
    rw [List.cons_append, Json.printedMembers, Json.printedMembers, ih, List.cons_append]

theorem dataAt_append_header (funcid : BitVec 32) (members : List (StdString × Json)) :
    dataAt (.object (members ++ header funcid)) = some (.document (some (.object members))) := by
  have hlength : (members ++ header funcid).length - 2 = members.length := by
    simp [header]
  have hdrop : (members ++ header funcid).drop ((members ++ header funcid).length - 2) =
      header funcid := by
    rw [hlength, List.drop_left]
  have htake : (members ++ header funcid).take ((members ++ header funcid).length - 2) = members := by
    rw [hlength, List.take_left]
  have hadded := congrArg (List.map Prod.fst) hdrop
  unfold dataAt
  refine (if_pos hadded).trans ?_
  exact congrArg (fun members => some (Value.document (some (Json.object members)))) htake

theorem dataAt_printed_object (funcid : BitVec 32) (members : List (StdString × Json)) :
    dataAt (addHeader funcid (.object members)).printed =
      some (.document (some (Json.object members).printed)) := by
  have hheader : Json.printedMembers (header funcid) = header funcid :=
    (Json.printedMembers_eq_self_iff _).mpr rfl
  rw [addHeader, Json.printed, printedMembers_append, hheader, dataAt_append_header, Json.printed]

theorem dataAt_printed_of_not_object (funcid : BitVec 32) {item : Json}
    (hitem : ∀ members, item ≠ .object members) : dataAt (addHeader funcid item).printed = none := by
  cases item with
  | object members => exact absurd rfl (hitem members)
  | number n =>
    cases n with
    | finite d => rfl
    | infinite negative => rfl
  | _ => rfl

theorem same_parsedBody (message : StdString → Message) {c : ClientCall} {data : Option StdString}
    {funcid : BitVec 32} (hc : c = .configure data ∨ c = .getParameters data)
    (hjson : jsonRequest env cJSON_Parse c = parsedBody cJSON_Parse funcid data)
    (hproto : protobufBody env c = setData data message)
    (hmessage : ∀ text, protobufArguments cJSON_Parse (message text) =
      present [(.data, some (.document (cJSON_Parse text)))]) :
    SameDocument cJSON_Parse env c ↔ ParsesToObject cJSON_Parse data := by
  have harguments (doc : Json) : jsonArguments doc c = present [(.data, dataAt doc)] := by
    rcases hc with rfl | rfl <;> rfl
  cases data with
  | none =>
    refine iff_of_false (fun hsame => ?_) fun ⟨_, _, hnull, _⟩ => nomatch hnull
    unfold SameDocument jsonBody at hsame
    rw [hjson, hproto] at hsame
    exact hsame
  | some text =>
    cases hparse : cJSON_Parse (c_str text) with
    | none =>
      refine iff_of_false (fun hsame => ?_) fun ⟨_, members, htext, hobject, _⟩ => ?_
      · unfold SameDocument jsonBody at hsame
        rw [hjson, parsedBody, Option.bind_some, hparse] at hsame
        exact hsame
      · rw [← Option.some.inj htext, hparse] at hobject
        cases hobject
    | some item =>
      have hitem : jsonRequest env cJSON_Parse c = .body (addHeader funcid item) := by
        rw [hjson, parsedBody, Option.bind_some, hparse]
      have hrequest : protobufBody env c = .body (message (c_str text)) := hproto
      rw [sameDocument_of_body hitem hrequest, harguments, hmessage, hparse]
      by_cases hobject : ∃ members, item = .object members
      · obtain ⟨members, rfl⟩ := hobject
        rw [dataAt_printed_object]
        have hfinite := Json.printed_eq_self_iff (.object members)
        constructor
        · intro hsame
          injection hsame with hdata
          have hdocument := Option.some.inj (Value.document.inj (Prod.mk.inj hdata).2)
          exact ⟨text, members, rfl, hparse, hfinite.mp hdocument⟩
        · rintro ⟨text', members', htext, hobject, hmembers⟩
          rw [← Option.some.inj htext, hparse] at hobject
          rw [← Option.some.inj hobject] at hmembers
          rw [hfinite.mpr hmembers]
      · rw [dataAt_printed_of_not_object funcid fun members h => hobject ⟨members, h⟩]
        refine iff_of_false (fun hsame => nomatch hsame) ?_
        rintro ⟨text', members, htext, hmembers, _⟩
        rw [← Option.some.inj htext, hparse] at hmembers
        exact hobject ⟨members, Option.some.inj hmembers⟩

theorem sameDocument_iff_portable (env : ClientEnv) (cJSON_Parse : StdString → Option Json)
    (c : ClientCall) : SameDocument cJSON_Parse env c ↔ PortableDocument cJSON_Parse env c := by
  cases c with
  | checkPermission manufactures certs => exact same_checkPermission manufactures certs
  | requestCpuHighFreq scene action level timeoutms =>
    exact same_highFreq (.inl rfl) rfl rfl fun _ => rfl
  | cancelCpuHighFreq => exact iff_of_true rfl trivial
  | requestGpuHighFreq scene action level timeoutms =>
    exact same_highFreq (.inr (.inl rfl)) rfl rfl fun _ => rfl
  | cancelGpuHighFreq => exact iff_of_true rfl trivial
  | requestCpuCoreForThread scene action bindtids bindlen timeoutms =>
    exact same_requestCpuCoreForThread scene action bindtids bindlen timeoutms
  | cancelCpuCoreForThread unbindtids unbindlen =>
    exact iff_of_true (same_cancelCpuCoreForThread unbindtids unbindlen) trivial
  | requestHighIOFreq scene action level timeoutms =>
    exact same_highFreq (.inr (.inr rfl)) rfl rfl fun _ => rfl
  | cancelHighIOFreq => exact iff_of_true rfl trivial
  | requestScreenResolution level uiName => exact same_requestScreenResolution level uiName
  | resetScreenResolution => exact iff_of_true rfl trivial
  | registerANRCallback => exact same_registerCallback (.inl rfl) (by decide) rfl rfl
  | registerSystemEventCallback => exact same_registerCallback (.inr rfl) (by decide) rfl rfl
  | registerBootPreloadResource files => exact same_registerBootPreloadResource files
  | terminateApp => exact iff_of_true rfl trivial
  | requestUnifyCpuIOThreadCoreGpu scene action cpulevel iolevel bindtids gpulevel bindlen timeoutms =>
    exact same_requestUnifyCpuIOThreadCoreGpu scene action cpulevel iolevel bindtids gpulevel bindlen
      timeoutms
  | cancelUnifyCpuIOThreadCoreGpu cancelcpu cancelio cancelthread unbindtids unbindlen cancelgpu =>
    exact iff_of_true (same_cancelUnifyCpuIOThreadCoreGpu cancelcpu cancelio cancelthread unbindtids
      unbindlen cancelgpu) trivial
  | configure data => exact same_parsedBody (fun data => .Configuration ⟨data⟩) (.inl rfl) rfl rfl fun _ => rfl
  | getParameters data => exact same_parsedBody (fun data => .GetParameters ⟨data⟩) (.inr rfl) rfl rfl fun _ => rfl

end Same

theorem not_exact53 : ¬ Exact53 (2 ^ 53 + 1) := by
  rintro ⟨m, k, hm, hz⟩
  have hle := (abs_le.mp hm).2
  cases k with
  | zero => omega
  | succ k =>
    have heven : m * 2 ^ (k + 1) = m * 2 ^ k * 2 := by rw [pow_succ, mul_assoc]
    omega

end Hardcoder
