import Hardcoder.HCPerfScan

/-! The native calls of a pass and what they leave on the device. The request is made when
its time is less than `Integer.MAX_VALUE`, that is when one of the tasks that it is about
has less time left. -/

namespace Hardcoder.HCPerfManager
set_option autoImplicit false

/-- The task is running, and nothing about it stands in the way of a request. -/
structure PerformanceTask.Proper (task : PerformanceTask) (now : Int) : Prop where
  lasts : now < task.stopTime
  int : task.stopTime - now ≤ MAX_VALUE.toInt
  callerTid : 0 < task.callerTid.toInt
  scene_or_action : 0 < task.scene.toInt ∨ 0 < task.action.toInt

/-- The task has less than `Integer.MAX_VALUE` left. -/
def PerformanceTask.Short (task : PerformanceTask) (now : Int) : Prop :=
  task.stopTime - now < MAX_VALUE.toInt

theorem toInt_max_value : MAX_VALUE.toInt = 2147483647 := by decide

theorem PerformanceTask.isNeedBindTids_of_binds {task : PerformanceTask} (h : task.binds = true) :
    task.isNeedBindTids = true := by
  unfold binds at h
  unfold isNeedBindTids
  split
  · rename_i hnil
    rw [hnil] at h
    cases h
  · rename_i tid hone
    rw [hone, List.any_cons, List.any_nil, Bool.or_false] at h
    exact h
  · rfl

theorem length_flatMap_bindTids (task : Nat → PerformanceTask) (set : List Nat) :
    (set.flatMap fun t => (task t).bindTids).length = tidCount task set :=
  List.length_flatMap

theorem filled_perm {task : Nat → PerformanceTask} {set set' : List Nat} (h : set'.Perm set) :
    filled (tidCount task set) (set'.flatMap fun t => (task t).bindTids) =
      set'.flatMap fun t => (task t).bindTids := by
  have hlength : (set'.flatMap fun t => (task t).bindTids).length = tidCount task set := by
    rw [← length_flatMap_bindTids]
    exact (h.flatMap_right _).length_eq
  rw [filled, hlength, Nat.sub_self, List.replicate_zero, List.append_nil]

section Requests
variable {task : Nat → PerformanceTask} {now : Int} {q : Request} {t : Nat}

/-- A request that some task has been added to can be made. -/
structure Request.Sound (q : Request) : Prop where
  pos : 0 < q.timeStamp.toInt
  le : q.timeStamp.toInt ≤ MAX_VALUE.toInt
  callerTid : q.timeStamp.toInt < MAX_VALUE.toInt → 0 < q.callerTid.toInt
  scene_or_action : q.timeStamp.toInt < MAX_VALUE.toInt → 0 < q.scene.toInt ∨ 0 < q.action.toInt

theorem toInt_timeStamp (h : (task t).Proper now) : ((q.add task now t).timeStamp).toInt =
    min ((task t).stopTime - now) q.timeStamp.toInt := by
  have hlasts := h.lasts
  have hint := h.int
  rw [toInt_max_value] at hint
  have hleft : (BitVec.ofInt 32 ((task t).stopTime - now)).toInt = (task t).stopTime - now := by
    rw [BitVec.toInt_ofInt, Int.bmod_eq_of_le] <;> omega
  rw [Request.add, jmin, hleft]
  dsimp only
  split
  · rw [hleft]
    omega
  · omega

theorem Request.Sound.add (h : q.Sound) (ht : (task t).Proper now) : (q.add task now t).Sound := by
  have htime := @toInt_timeStamp task now q t ht
  have hlasts := ht.lasts
  have hpos := h.pos
  have hle := h.le
  exact ⟨by omega, by omega, fun _ => ht.callerTid, fun _ => ht.scene_or_action⟩

theorem timeStamp_add_lt (ht : (task t).Proper now) :
    (q.add task now t).timeStamp.toInt < MAX_VALUE.toInt ↔
      q.timeStamp.toInt < MAX_VALUE.toInt ∨ (task t).Short now := by
  rw [toInt_timeStamp ht, PerformanceTask.Short]
  omega

theorem requestTids_spec : ∀ {ts : List Nat} {q : Request}, q.Sound →
    (∀ t ∈ ts, (task t).Proper now ∧ (task t).binds = true) →
    ∃ q', requestTids task now q ts = some (q', ts.flatMap fun t => (task t).bindTids) ∧ q'.Sound ∧
      (q'.timeStamp.toInt < MAX_VALUE.toInt ↔
        q.timeStamp.toInt < MAX_VALUE.toInt ∨ ∃ t ∈ ts, (task t).Short now) := by
  intro ts
  induction ts with
  | nil =>
    intro q hq _
    exact ⟨q, rfl, hq, by simp⟩
  | cons t ts ih =>
    intro q hq hts
    obtain ⟨ht, hbinds⟩ := hts t List.mem_cons_self
    have hlasts := ht.lasts
    obtain ⟨q', hloop, hsound, htime⟩ := ih (hq.add ht) fun u hu => hts u (List.mem_cons_of_mem _ hu)
    refine ⟨q', ?_, hsound, ?_⟩
    · rw [requestTids, if_neg (by omega), PerformanceTask.isNeedBindTids_of_binds hbinds,
        if_neg (by decide), hloop]
      rfl
    · rw [htime, timeStamp_add_lt ht, List.exists_mem_cons_iff, or_assoc]

theorem cancelTids_spec : ∀ {ts : List Nat},
    (∀ t ∈ ts, (task t).stopTime ≤ now ∧ (task t).binds = true) →
    cancelTids task now ts = some (ts.flatMap fun t => (task t).bindTids) := by
  intro ts
  induction ts with
  | nil => exact fun _ => rfl
  | cons t ts ih =>
    intro hts
    obtain ⟨hstop, hbinds⟩ := hts t List.mem_cons_self
    rw [cancelTids, if_neg (by omega), PerformanceTask.isNeedBindTids_of_binds hbinds,
      if_neg (by decide), ih fun u hu => hts u (List.mem_cons_of_mem _ hu)]
    rfl

theorem Request.Sound.addLevel {max : Option Nat} (h : q.Sound)
    (hmax : ∀ m ∈ max, (task m).Proper now) : (q.addLevel task now max).Sound ∧
    ((q.addLevel task now max).timeStamp.toInt < MAX_VALUE.toInt ↔
      q.timeStamp.toInt < MAX_VALUE.toInt ∨ ∃ m ∈ max, (task m).Short now) := by
  cases max with
  | none => exact ⟨h, by simp [Request.addLevel]⟩
  | some m =>
    have hm := hmax m rfl
    exact ⟨h.add hm, by simp [Request.addLevel, timeStamp_add_lt hm]⟩

end Requests

/-- What a pass has found: the best tasks and those that bind threads are running, and a
task that is bound no longer has stopped. -/
structure Scan.Pass (z : Scan) (now : Int) (currBindCore : List Nat) : Prop where
  max : ∀ r, ∀ m ∈ z.max r, (z.task m).Proper now ∧ 0 < ((z.task m).level r).toInt
  bind : ∀ t ∈ z.needBindCore, (z.task t).Proper now ∧ (z.task t).binds = true
  stopped : ∀ t ∈ currBindCore, t ∉ z.needBindCore →
    (z.task t).stopTime ≤ now ∧ (z.task t).binds = true

/-- One of the tasks that the request is about has less than `Integer.MAX_VALUE` left. -/
def Scan.Asks (z : Scan) (now : Int) : Prop :=
  (∃ t ∈ z.needBindCore, (z.task t).Short now) ∨ ∃ r, ∃ m ∈ z.max r, (z.task m).Short now

section Calls
variable {vm : Machine} {now : Int} {z : Scan} {s : Sys}

theorem exists_resource {P : Resource → Prop} :
    (∃ r, P r) ↔ P .io ∨ P .gpu ∨ P .cpu := by
  constructor
  · rintro ⟨r, hr⟩
    cases r with
    | cpu => exact .inr (.inr hr)
    | gpu => exact .inr (.inl hr)
    | io => exact .inl hr
  · rintro (h | h | h)
    · exact ⟨_, h⟩
    · exact ⟨_, h⟩
    · exact ⟨_, h⟩

theorem unifyRequest_of_lt {q : Request} {level : Resource → JInt} {tidList : List JInt}
    (h : q.Sound) (hlt : q.timeStamp.toInt < MAX_VALUE.toInt)
    (hsome : (∃ r, 0 < (level r).toInt) ∨ tidList ≠ []) :
    unifyRequest q level tidList =
      some [.requestUnifyCpuIOThreadCoreGpu q.scene q.action level tidList q.timeStamp
        q.callerTid] := by
  rw [unifyRequest, if_pos hlt, if_pos]
  rw [asserted, decide_eq_true_eq]
  refine ⟨h.pos, h.scene_or_action hlt, h.callerTid hlt, ?_⟩
  rcases hsome with hlevel | htids
  · rcases exists_resource.mp hlevel with h | h | h
    · exact .inr (.inr (.inl h))
    · exact .inr (.inl h)
    · exact .inl h
  · exact .inr (.inr (.inr (List.length_pos_iff.mpr htids)))

/-- The request is made just when it is asked for; no assertion fails. -/
theorem request_spec (vm : Machine) {currBindCore : List Nat} (h : z.Pass now currBindCore) :
    (z.Asks now ∧ ∃ scene action timeStamp callerTid, request vm now z =
      some [.requestUnifyCpuIOThreadCoreGpu scene action (fun r => reqLevel z.task (z.max r) r)
        ((vm.iterator z.needBindCore).flatMap fun t => (z.task t).bindTids) timeStamp callerTid]) ∨
    (¬ z.Asks now ∧ request vm now z = some []) := by
  have hperm := vm.iterator_perm z.needBindCore
  have hstart : (⟨0, 0, 0, MAX_VALUE⟩ : Request).Sound :=
    ⟨by decide, Int.le_refl _, fun hlt => absurd hlt (Int.lt_irrefl _),
      fun hlt => absurd hlt (Int.lt_irrefl _)⟩
  obtain ⟨q, hloop, hq, htime⟩ := requestTids_spec hstart fun t ht =>
    h.bind t (hperm.mem_iff.mp ht)
  obtain ⟨hio, htimeIo⟩ := hq.addLevel fun m hm => (h.max .io m hm).1
  obtain ⟨hgpu, htimeGpu⟩ := hio.addLevel fun m hm => (h.max .gpu m hm).1
  obtain ⟨hcpu, htimeCpu⟩ := hgpu.addLevel fun m hm => (h.max .cpu m hm).1
  have hasks : (((q.addLevel z.task now (z.max .io)).addLevel z.task now (z.max .gpu)).addLevel
      z.task now (z.max .cpu)).timeStamp.toInt < MAX_VALUE.toInt ↔ z.Asks now := by
    have hbound : (∃ t ∈ vm.iterator z.needBindCore, (z.task t).Short now) ↔
        ∃ t ∈ z.needBindCore, (z.task t).Short now :=
      exists_congr fun t => and_congr_left fun _ => hperm.mem_iff
    rw [htimeCpu, htimeGpu, htimeIo, htime, Scan.Asks, exists_resource, hbound]
    simp only [Int.lt_irrefl, false_or, or_assoc]
  have hfilled := @filled_perm z.task _ _ hperm
  rw [request, hloop, Option.bind_some]
  dsimp only
  rw [hfilled]
  by_cases hmade : z.Asks now
  · refine .inl ⟨hmade, _, _, _, _, unifyRequest_of_lt hcpu (hasks.mpr hmade) ?_⟩
    rcases hmade with ⟨t, ht, -⟩ | ⟨r, m, hm, -⟩
    · refine .inr fun hnil => ?_
      have hbinds := (h.bind t ht).2
      have hnone := List.flatMap_eq_nil_iff.mp hnil t (hperm.mem_iff.mpr ht)
      rw [PerformanceTask.binds, hnone] at hbinds
      cases hbinds
    · refine .inl ⟨r, ?_⟩
      rw [Option.mem_def.mp hm]
      exact (h.max r m hm).2
  · refine .inr ⟨hmade, ?_⟩
    rw [unifyRequest, if_neg fun hlt => hmade (hasks.mp hlt)]

theorem cancelBindCore_spec (vm : Machine) {stopSet : List Nat} (d : Device)
    (h : ∀ t ∈ stopSet, (z.task t).stopTime ≤ now ∧ (z.task t).binds = true) :
    ∃ cs, cancelBindCore vm now z.task stopSet = some cs ∧
      (cs.foldl Device.apply d).level = d.level ∧
      ∀ tid, tid ∈ (cs.foldl Device.apply d).bound ↔
        tid ∈ d.bound ∧ ∀ u ∈ stopSet, tid ∉ (z.task u).bindTids := by
  have hperm := vm.iterator_perm stopSet
  unfold cancelBindCore
  dsimp only
  split
  · rw [cancelTids_spec fun t ht => h t (hperm.mem_iff.mp ht), Option.map_some, filled_perm hperm]
    refine ⟨_, rfl, rfl, fun tid => ?_⟩
    have hnone : tid ∉ ((vm.iterator stopSet).flatMap fun t => (z.task t).bindTids) ↔
        ∀ u ∈ stopSet, tid ∉ (z.task u).bindTids := by
      simp only [List.mem_flatMap, not_exists, not_and, hperm.mem_iff]
    rw [← hnone]
    exact List.mem_filter.trans (and_congr_right fun _ => by simp)
  · rename_i hcount
    refine ⟨[], rfl, rfl, fun tid => ?_⟩
    refine ⟨fun htid => ⟨htid, fun u hu hmem => hcount ?_⟩, fun htid => htid.1⟩
    rw [← length_flatMap_bindTids]
    exact List.length_pos_of_mem (List.mem_flatMap.mpr ⟨u, hu, hmem⟩)

theorem level_cancelLevel (d : Device) (task : Nat → PerformanceTask) (curr max : Option Nat)
    (r r' : Resource) : ((cancelLevel task curr max r).foldl Device.apply d).level r' =
      if r' = r ∧ max = none ∧ curr ≠ none then 0 else d.level r' := by
  cases max with
  | some m => rw [if_neg fun h => Option.some_ne_none m h.2.1]; rfl
  | none =>
    cases curr with
    | none => rw [if_neg fun h => h.2.2 rfl]; rfl
    | some t =>
      refine (Function.update_apply d.level r 0 r').trans ?_
      simp

theorem bound_cancelLevel (d : Device) (task : Nat → PerformanceTask) (curr max : Option Nat)
    (r : Resource) : ((cancelLevel task curr max r).foldl Device.apply d).bound = d.bound := by
  unfold cancelLevel
  split
  · rfl
  · rfl

theorem level_cancelLevels (d : Device) (r : Resource) :
    ((cancelLevels s z).foldl Device.apply d).level r =
      if z.max r = none ∧ s.curr r ≠ none then 0 else d.level r := by
  rw [cancelLevels, List.foldl_append, List.foldl_append, level_cancelLevel, level_cancelLevel,
    level_cancelLevel]
  cases r <;> simp

theorem bound_cancelLevels (d : Device) :
    ((cancelLevels s z).foldl Device.apply d).bound = d.bound := by
  rw [cancelLevels, List.foldl_append, List.foldl_append, bound_cancelLevel, bound_cancelLevel,
    bound_cancelLevel]

/-- What a pass in which something has changed leaves on the device. -/
structure Left (z : Scan) (s : Sys) (now : Int) (d : Device) : Prop where
  asked : z.Asks now → ∀ r, ∀ m ∈ z.max r, d.level r = (z.task m).level r
  kept : ¬ z.Asks now → ∀ r, z.max r ≠ none → d.level r = s.device.level r
  cancelled : ∀ r, z.max r = none → s.curr r ≠ none → d.level r = 0
  idle : ∀ r, z.max r = none → s.curr r = none → d.level r = s.device.level r
  bound : ∀ tid, tid ∈ d.bound ↔
    (tid ∈ s.device.bound ∧
      ∀ u ∈ s.currBindCore, u ∉ z.needBindCore → tid ∉ (z.task u).bindTids) ∨
    (z.Asks now ∧ ∃ t ∈ z.needBindCore, tid ∈ (z.task t).bindTids)

theorem calls_spec (vm : Machine) (h : z.Pass now s.currBindCore)
    (hchanged : unchanged s z (s.currBindCore.filter fun t => t ∉ z.needBindCore) = false) :
    ∃ cs, calls vm now s z = some cs ∧ Left z s now (cs.foldl Device.apply s.device) := by
  have hover : ∀ t ∈ s.currBindCore.filter fun t => t ∉ z.needBindCore,
      (z.task t).stopTime ≤ now ∧ (z.task t).binds = true := by
    intro t ht
    obtain ⟨ht, hnot⟩ := List.mem_filter.mp ht
    exact h.stopped t ht (of_decide_eq_true hnot)
  obtain ⟨cancelled, hcancel, hlevel, hbound⟩ := cancelBindCore_spec vm s.device hover
  have hstopped {tid : JInt} : (∀ u ∈ s.currBindCore.filter fun t => t ∉ z.needBindCore,
      tid ∉ (z.task u).bindTids) ↔
      ∀ u ∈ s.currBindCore, u ∉ z.needBindCore → tid ∉ (z.task u).bindTids := by
    simp only [List.mem_filter, decide_eq_true_eq, and_imp]
  have hnone {r : Resource} (hmax : z.max r = none) : reqLevel z.task (z.max r) r = 0 := by
    rw [hmax]
    rfl
  have hperm := vm.iterator_perm z.needBindCore
  unfold calls
  dsimp only
  rw [hchanged, if_neg Bool.false_ne_true, hcancel, Option.bind_some]
  rcases request_spec vm h with ⟨hasks, scene, action, timeStamp, callerTid, hrequest⟩ |
    ⟨hasks, hrequest⟩
  · rw [hrequest]
    refine ⟨_, rfl, ?_⟩
    rw [List.foldl_append, List.foldl_append, List.foldl_cons, List.foldl_nil, Device.apply]
    refine ⟨fun _ r m hm => ?_, fun hnot => absurd hasks hnot, fun r hmax hcurr => ?_,
      fun r hmax hcurr => ?_, fun tid => ?_⟩
    · dsimp only
      rw [Option.mem_def.mp hm, reqLevel, if_pos (h.max r m hm).2]
    · dsimp only
      rw [hnone hmax, if_neg (by decide), level_cancelLevels, if_pos ⟨hmax, hcurr⟩]
    · dsimp only
      rw [hnone hmax, if_neg (by decide), level_cancelLevels, if_neg fun h => h.2 hcurr, hlevel]
    · rw [bound_cancelLevels, List.mem_append, hbound, hstopped]
      simp only [hasks, true_and, List.mem_flatMap, hperm.mem_iff]
  · rw [hrequest, Option.map_some, List.append_nil]
    refine ⟨_, rfl, ?_⟩
    rw [List.foldl_append]
    refine ⟨fun hyes => absurd hyes hasks, fun _ r hmax => ?_, fun r hmax hcurr => ?_,
      fun r hmax hcurr => ?_, fun tid => ?_⟩
    · rw [level_cancelLevels, if_neg fun h => hmax h.1, hlevel]
    · rw [level_cancelLevels, if_pos ⟨hmax, hcurr⟩]
    · rw [level_cancelLevels, if_neg fun h => h.2 hcurr, hlevel]
    · rw [bound_cancelLevels, hbound, hstopped]
      simp only [hasks, false_and, or_false]

end Calls

end Hardcoder.HCPerfManager
