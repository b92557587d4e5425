import Hardcoder.HCPerfCalls

/-! The statistics of the records that the manager makes. A level is an index of the arrays
of a task; `start` takes any level that is not negative. -/

namespace Hardcoder
open Runs
set_option autoImplicit false

namespace HCPerfStatThread
open HCPerfManager

section Records
variable (task : Nat → PerformanceTask) (coreFreq : JInt → JLong) (p : PerformanceStatus)

/-- The loop of `savePerformanceStatus` comes to its end: no index is out of bounds. -/
def completes (stat : Nat → TaskStat) : List Nat → Bool
  | [] => true
  | t :: ts =>
    if (task t).isNeedBindTids = false then completes stat ts
    else
      let saved := saveTask task coreFreq p (stat t) t
      saved.2 && completes (Function.update stat t saved.1) ts

/-- The elapsed time is charged to one entry of each array. -/
structure Charged (s s' : TaskStat) : Prop extends Saved p s s' where
  cpuLevel : IsLevel (cpuInForce p s.cpu.last)
  ioLevel : IsLevel (ioInForce p s.io.last)

/-- The record is saved whole. -/
structure Handled (s s' : Sys) : Prop where
  completes : completes task coreFreq p s.stat p.listStartTask = true
  updates : ∀ t ∈ p.listStartTask, (task t).isNeedBindTids = true →
    Charged p (s.stat t) (s'.stat t)
  charges : ∀ t, (s'.stat t).lastUpdateTime ≠ (s.stat t).lastUpdateTime →
    Charged p (s.stat t) (s'.stat t)

/-- The object that is polled, if it is a record, is saved whole. -/
def Handles (s : Sys) (a : Poll) : Prop :=
  ∀ p, a.object = .status p → ∀ s', step task s a = some s' → Handled task a.coreFreq p s s'

/-- A record of a task that has threads to bind has a level or a code for each resource. -/
def PerformanceStatus.Fits : Prop :=
  (∃ t ∈ p.listStartTask, (task t).isNeedBindTids = true) → p.Coded

variable {task coreFreq p} {stat : Nat → TaskStat}

theorem LevelStat.save_fails {s : LevelStat} {CANCEL KEEP req : JInt} {e : Int}
    (h : ¬ (IsLevel req ∨ req = KEEP ∨ req = CANCEL)) : (s.save CANCEL KEEP req e).2 = false := by
  rw [not_or, not_or] at h
  rw [LevelStat.save, if_pos h.2.2, if_neg h.2.1, LevelStat.charge, if_neg h.1]

theorem saveTask_fails {s : TaskStat} (h : s.InRange) (hp : ¬ p.Coded) (t : Nat) :
    (saveTask task coreFreq p s t).2 = false := by
  unfold saveTask
  dsimp only
  by_cases hcpu : IsLevel p.reqCpuLevel ∨ p.reqCpuLevel = CPU_LEVEL_KEEP ∨
      p.reqCpuLevel = CPU_LEVEL_CANCEL
  · have hio : ¬ (IsLevel p.reqIoLevel ∨ p.reqIoLevel = IO_LEVEL_KEEP ∨
        p.reqIoLevel = IO_LEVEL_CANCEL) := fun hio => hp ⟨hcpu, hio⟩
    have hsave := LevelStat.save_eq (e := p.time - s.lastUpdateTime)
      (by decide : CPU_LEVEL_KEEP ≠ CPU_LEVEL_CANCEL) h.cpu hcpu
    rw [hsave, if_neg Bool.noConfusion, if_pos (LevelStat.save_fails hio)]
  · rw [if_pos (LevelStat.save_fails hcpu)]

theorem inRange_update (h : ∀ u, (stat u).InRange) {s : TaskStat} (hs : s.InRange) (t : Nat) :
    ∀ u, (Function.update stat t s u).InRange := by
  intro u
  by_cases hut : u = t
  · rw [hut, Function.update_self]
    exact hs
  · rw [Function.update_of_ne hut]
    exact h u

theorem completes_iff (ts : List Nat) : ∀ {stat : Nat → TaskStat}, (∀ u, (stat u).InRange) →
    (completes task coreFreq p stat ts = true ↔
      ((∃ t ∈ ts, (task t).isNeedBindTids = true) → p.Coded)) := by
  induction ts with
  | nil => exact fun _ => iff_of_true rfl fun ⟨_, ht, _⟩ => (nomatch ht)
  | cons t ts ih =>
    intro stat h
    rw [completes, List.exists_mem_cons_iff]
    by_cases hneed : (task t).isNeedBindTids = false
    · have hnot : ¬ (task t).isNeedBindTids = true := fun hyes =>
        Bool.false_ne_true (hneed.symm.trans hyes)
      rw [if_pos hneed, ih h, or_iff_right hnot]
    rw [if_neg hneed]
    dsimp only
    by_cases hp : p.Coded
    · obtain ⟨s', hs', -, hin⟩ := @saveTask_spec task coreFreq _ _ hp (h t) t
      rw [hs', Bool.true_and, ih (inRange_update h hin t)]
      exact iff_of_true (fun _ => hp) fun _ => hp
    · rw [saveTask_fails (h t) hp t, Bool.false_and]
      exact iff_of_false Bool.false_ne_true fun himp =>
        hp (himp (.inl (Bool.eq_true_of_not_eq_false hneed)))

/-- A task that has no threads to bind, or is not in the record, stays as it is. -/
theorem savePerformanceStatus_of_not_need {u : Nat} (ts : List Nat)
    (hu : u ∈ ts → (task u).isNeedBindTids = false) : ∀ {stat : Nat → TaskStat},
    savePerformanceStatus task coreFreq p stat ts u = stat u := by
  induction ts with
  | nil => exact rfl
  | cons t ts ih =>
    intro stat
    have hrest := @ih fun hmem => hu (List.mem_cons_of_mem _ hmem)
    rw [savePerformanceStatus]
    by_cases hneed : (task t).isNeedBindTids = false
    · rw [if_pos hneed]
      exact hrest
    · have hut : u ≠ t := by
        rintro rfl
        exact hneed (hu List.mem_cons_self)
      rw [if_neg hneed]
      split
      · rw [hrest, Function.update_of_ne hut]
      · rw [Function.update_of_ne hut]

theorem handled_iff {s : Sys} (h : ∀ u, (s.stat u).InRange) (coreFreq : JInt → JLong)
    (p : PerformanceStatus) {s' : Sys} (hs : step task s ⟨.status p, coreFreq⟩ = some s') :
    Handled task coreFreq p s s' ↔ p.Fits task := by
  obtain rfl := Option.some.inj hs
  constructor
  · exact fun hh => (completes_iff _ h).mp hh.completes
  · intro hfits
    have hcharged : ∀ t ∈ p.listStartTask, (task t).isNeedBindTids = true → Charged p (s.stat t)
        (savePerformanceStatus task coreFreq p s.stat p.listStartTask t) := by
      intro t ht hneed
      have hp := hfits ⟨t, ht, hneed⟩
      obtain ⟨stat', hstat', -, hsaved, -⟩ :=
        @savePerformanceStatus_spec task coreFreq p hp p.listStartTask s.stat h
      rw [hstat']
      exact ⟨hsaved t ht hneed, LevelStat.isLevel_inForce (h t).cpu hp.cpu,
        LevelStat.isLevel_inForce (h t).io hp.io⟩
    refine ⟨(completes_iff _ h).mpr hfits, hcharged, fun t hne => ?_⟩
    by_contra hnot
    apply hne
    apply congrArg TaskStat.lastUpdateTime
    apply savePerformanceStatus_of_not_need
    intro ht
    exact Bool.eq_false_iff.mpr fun hneed => hnot (hcharged t ht hneed)

theorem inRange_step {s s' : Sys} (h : ∀ u, (s.stat u).InRange) {a : Poll}
    (ha : ∀ p, a.object = .status p → p.Fits task) (hs : step task s a = some s') :
    ∀ u, (s'.stat u).InRange := by
  obtain ⟨object, coreFreq⟩ := a
  cases object with
  | task t =>
    obtain rfl := Option.some.inj hs
    exact h
  | status p =>
    obtain rfl := Option.some.inj hs
    by_cases hneed : ∃ t ∈ p.listStartTask, (task t).isNeedBindTids = true
    · obtain ⟨stat', hstat', hin, -, -⟩ := @savePerformanceStatus_spec task coreFreq p
        (ha p rfl hneed) p.listStartTask s.stat h
      dsimp only
      rw [hstat']
      exact hin
    · intro u
      dsimp only
      rw [savePerformanceStatus_of_not_need]
      · exact h u
      · exact fun hu => Bool.eq_false_iff.mpr fun hyes => hneed ⟨u, hu, hyes⟩

theorem handles_iff_fits (task : Nat → PerformanceTask) (polls : List Poll) :
    Along (step task) (Handles task) (init task) polls ↔
      ∀ a ∈ polls, ∀ p, a.object = .status p → p.Fits task := by
  have htotal : ∀ (s : Sys) (a : Poll), (step task s a).isSome := by
    rintro s ⟨⟨p⟩ | ⟨t⟩, coreFreq⟩
    · rfl
    · rfl
  have hinit : ∀ u, ((init task).stat u).InRange :=
    fun _ => ⟨LevelStat.isLevel_zero, LevelStat.isLevel_zero⟩
  rw [← @along_iff_forall _ _ (step task) (fun a => ∀ p, a.object = .status p → p.Fits task) htotal]
  refine (@along_congr _ _ _ (fun _ a => ∀ p, a.object = .status p → p.Fits task) (Handles task)
    (fun s => ∀ u, (s.stat u).InRange) (fun h ha hs => inRange_step h ha hs) (fun {s a} h => ?_)
    polls (init task) hinit).symm
  obtain ⟨object, coreFreq⟩ := a
  cases object with
  | task t => exact iff_of_true (fun _ hp => (nomatch hp)) fun _ hp => (nomatch hp)
  | status p =>
    constructor
    · intro hfits q hq s' hs
      obtain rfl := Object.status.inj hq
      exact (handled_iff h coreFreq p hs).mpr (hfits p rfl)
    · intro hhandles q hq
      obtain rfl := Object.status.inj hq
      exact (handled_iff h coreFreq p rfl).mp (hhandles p rfl _ rfl)

end Records

end HCPerfStatThread

namespace HCPerfRunnable
open HCPerfManager HCPerfStatThread

section Levels
variable (vm : Machine)

/-- A pass that comes to its request with a task that has threads to bind in the list asks
for no cpu or io level above 3. -/
def InLevels (r : Thread) : HCPerfRunnable.Action → Prop
  | .loop polled rd =>
    let r := r.taking vm polled
    ¬ r.Same vm rd → r.Requests vm rd →
      (∃ t ∈ r.left vm rd, (r.sys.task t).isNeedBindTids = true) →
      (r.reqLevel vm rd .cpu).toInt ≤ 3 ∧ (r.reqLevel vm rd .io).toInt ≤ 3
  | _ => True

/-- Every record made so far fits. -/
def AllFit (r : Thread) : Prop := ∀ p, .status p ∈ r.objectQueue → p.Fits r.sys.task

/-- A record that may not fit is about tasks that have been made. -/
def Listed (r : Thread) : Prop :=
  ∀ p, .status p ∈ r.objectQueue → p.Coded ∨ ∀ t ∈ p.listStartTask, t < r.sys.made

variable {vm} {rd : Readings} {r r' : Thread}

theorem coded_kept (time : Int) (list : List Nat) : (kept time list).Coded :=
  ⟨.inr (.inl rfl), .inr (.inl rfl)⟩

theorem coded_cancelled (time : Int) (list : List Nat) (k : Resource) :
    (cancelledStatus time list k).Coded := by
  cases k with
  | cpu => exact ⟨.inr (.inr rfl), .inr (.inl rfl)⟩
  | gpu => exact ⟨.inr (.inl rfl), .inr (.inl rfl)⟩
  | io => exact ⟨.inr (.inl rfl), .inr (.inr rfl)⟩

theorem reqLevel_nonneg (k : Resource) : 0 ≤ (r.reqLevel vm rd k).toInt := by
  unfold Thread.reqLevel HCPerfManager.reqLevel
  cases hbest : best r.sys.task k (r.runningTasks vm rd) with
  | none => exact Int.le_refl _
  | some m => exact Int.le_of_lt (best_mem hbest).2

theorem coded_unifyStatus : (r.unifyStatus vm rd).Coded ↔
    (r.reqLevel vm rd .cpu).toInt ≤ 3 ∧ (r.reqLevel vm rd .io).toInt ≤ 3 := by
  have hlevel (k : Resource) {KEEP CANCEL : JInt} (hkeep : KEEP.toInt < 0) (hcancel : CANCEL.toInt < 0) :
      (IsLevel (r.reqLevel vm rd k) ∨ r.reqLevel vm rd k = KEEP ∨ r.reqLevel vm rd k = CANCEL) ↔
        (r.reqLevel vm rd k).toInt ≤ 3 := by
    have hnonneg := @reqLevel_nonneg vm rd r k
    constructor
    · rintro (h | h | h)
      · have hlt := h.2
        omega
      · rw [h] at hnonneg
        omega
      · rw [h] at hnonneg
        omega
    · exact fun h => .inl ⟨hnonneg, by omega⟩
  have hcpu := hlevel .cpu (by decide : CPU_LEVEL_KEEP.toInt < 0) (by decide : CPU_LEVEL_CANCEL.toInt < 0)
  have hio := hlevel .io (by decide : IO_LEVEL_KEEP.toInt < 0) (by decide : IO_LEVEL_CANCEL.toInt < 0)
  exact ⟨fun h => ⟨hcpu.mp h.cpu, hio.mp h.io⟩, fun h => ⟨hcpu.mpr h.1, hio.mpr h.2⟩⟩

/-- The records of the loop over the list keep every level. -/
theorem loop_objects {rest : List Nat} : ∀ {v : Visit}, (∀ p, .status p ∈ v.objects → p.Coded) →
    ∀ p, .status p ∈ (v.loop vm rd rest).objects → p.Coded := by
  induction rest with
  | nil => exact fun h => h
  | cons t rest ih =>
    intro v h
    apply ih
    intro p hp
    unfold Visit.next at hp
    dsimp only at hp
    split at hp
    · rcases List.mem_append.mp hp with hp | hp
      · exact h p hp
      · rcases List.mem_cons.mp hp with hp | hp
        · rw [Object.status.inj hp]
          exact coded_kept _ _
        · cases List.mem_singleton.mp hp
    · exact h p hp

/-- The record of the request is the only one of a pass that may not fit. -/
theorem status_pass (h : Valid r) {p : PerformanceStatus}
    (hp : .status p ∈ (r.pass vm rd).objectQueue) : .status p ∈ r.objectQueue ∨ p.Coded ∨
      (¬ r.Same vm rd ∧ r.Requests vm rd ∧ p = r.unifyStatus vm rd) := by
  rcases List.mem_append.mp hp with hp | hp
  · rcases List.mem_append.mp hp with hp | hp
    · exact .inl hp
    · exact .inr (.inl (loop_objects (fun _ hnone => absurd hnone List.not_mem_nil) p hp))
  · rcases status_mem h hp with ⟨list, rfl | ⟨k, rfl⟩⟩ | hrequest
    · exact .inr (.inl (coded_kept _ _))
    · exact .inr (.inl (coded_cancelled _ _ _))
    · exact .inr (.inr hrequest)

theorem isNeedBindTids_congr {task task' : PerformanceTask} (h : task'.bindTids = task.bindTids) :
    task'.isNeedBindTids = task.isNeedBindTids := by
  rw [PerformanceTask.isNeedBindTids, PerformanceTask.isNeedBindTids, h]

theorem taking_kept (r : Thread) (polled : Nat) : (r.taking vm polled).sys.task = r.sys.task ∧
    (r.taking vm polled).sys.made = r.sys.made ∧
    (r.taking vm polled).objectQueue = r.objectQueue := by
  refine @taking_invariant vm (fun q => q.sys.task = r.sys.task ∧ q.sys.made = r.sys.made ∧
    q.objectQueue = r.objectQueue) (fun {q e taskQueue} _ hq => ?_) r ⟨rfl, rfl, rfl⟩ polled
  cases e with
  | start t => exact hq
  | stop hashCode =>
    unfold Thread.poll
    simp only [Sys.poll]
    split
    · exact hq
    · exact hq

theorem fits_congr {task task' : Nat → PerformanceTask} {p : PerformanceStatus}
    (h : p.Coded ∨ ∀ t ∈ p.listStartTask, (task' t).bindTids = (task t).bindTids) :
    p.Fits task' ↔ p.Fits task := by
  rcases h with hp | h
  · exact iff_of_true (fun _ => hp) fun _ => hp
  · have hneed : (∃ t ∈ p.listStartTask, (task' t).isNeedBindTids = true) ↔
        ∃ t ∈ p.listStartTask, (task t).isNeedBindTids = true :=
      exists_congr fun t => and_congr_right fun ht => by rw [isNeedBindTids_congr (h t ht)]
    rw [PerformanceStatus.Fits, PerformanceStatus.Fits, hneed]

theorem allFit_start (hl : Listed r) (a : StartArgs) (initTime : Int) :
    Listed { r with sys := r.sys.startArgs a initTime } ∧
      (AllFit { r with sys := r.sys.startArgs a initTime } ↔ AllFit r) := by
  unfold Sys.startArgs
  split
  · refine ⟨fun p hp => (hl p hp).imp_right fun h t ht => Nat.lt_succ_of_lt (h t ht), ?_⟩
    refine forall₂_congr fun p hp => fits_congr ((hl p hp).imp_right fun h t ht => ?_)
    dsimp only
    rw [Function.update_of_ne (Nat.ne_of_lt (h t ht))]
  · exact ⟨hl, Iff.rfl⟩

theorem allFit_stop (hl : Listed r) (hashCode : JInt) :
    Listed { r with sys := r.sys.stop hashCode } ∧
      (AllFit { r with sys := r.sys.stop hashCode } ↔ AllFit r) := by
  unfold Sys.stop
  split
  · exact ⟨hl, Iff.rfl⟩
  · exact ⟨hl, Iff.rfl⟩

theorem allFit_pass (vm : Machine) (h : Valid r) (hl : Listed r) (rd : Readings) : Listed (r.pass vm rd) ∧
    (AllFit (r.pass vm rd) ↔ AllFit r ∧ (¬ r.Same vm rd → r.Requests vm rd →
      (∃ t ∈ r.left vm rd, (r.sys.task t).isNeedBindTids = true) →
      (r.reqLevel vm rd .cpu).toInt ≤ 3 ∧ (r.reqLevel vm rd .io).toInt ≤ 3)) := by
  have htids : ∀ t, ((r.pass vm rd).sys.task t).bindTids = (r.sys.task t).bindTids := fun t =>
    (congrArg PerformanceTask.bindTids ((scanned_spec h.list_nodup).task t)).trans
      (bindTids_stopAt t)
  have hfits {p : PerformanceStatus} : p.Fits (r.pass vm rd).sys.task ↔ p.Fits r.sys.task :=
    fits_congr (.inr fun t _ => htids t)
  have hold {p : PerformanceStatus} (hp : .status p ∈ r.objectQueue) :
      .status p ∈ (r.pass vm rd).objectQueue :=
    List.mem_append_left _ (List.mem_append_left _ hp)
  refine ⟨fun p hp => ?_, ?_, ?_⟩
  · rcases status_pass h hp with hp | hp | ⟨-, -, rfl⟩
    · exact hl p hp
    · exact .inl hp
    · exact .inr fun t ht =>
        h.made t (List.mem_append_right _ (List.mem_of_mem_filter ht))
  · intro hall
    refine ⟨fun p hp => hfits.mp (hall p (hold hp)), fun hchanged hr hneed => ?_⟩
    exact coded_unifyStatus.mp (hfits.mp
      (hall _ (List.mem_append_right _ (unifyStatus_mem h hchanged hr))) hneed)
  · rintro ⟨hall, hlevels⟩ p hp
    rw [hfits]
    rcases status_pass h hp with hp | hp | ⟨hchanged, hr, rfl⟩
    · exact hall p hp
    · exact fun _ => hp
    · exact fun hneed => coded_unifyStatus.mpr (hlevels hchanged hr hneed)

theorem allFit_step (h : Valid r) (hl : Listed r) {a : HCPerfRunnable.Action}
    (hs : step vm r a = some r') : Listed r' ∧ (AllFit r' ↔ AllFit r ∧ InLevels vm r a) := by
  cases a with
  | start a initTime =>
    obtain rfl := Option.some.inj hs
    simp only [InLevels, and_true]
    exact allFit_start hl a initTime
  | stop hashCode =>
    obtain rfl := Option.some.inj hs
    simp only [InLevels, and_true]
    exact allFit_stop hl hashCode
  | loop polled rd =>
    rw [HCPerfRunnable.step] at hs
    split at hs
    · obtain rfl := Option.some.inj hs
      obtain ⟨htask, hmade, hqueue⟩ := @taking_kept vm r polled
      have htaken : Listed (r.taking vm polled) := by
        intro p hp
        rw [hmade]
        exact hl p (hqueue ▸ hp)
      have hallFit : AllFit (r.taking vm polled) ↔ AllFit r := by
        rw [AllFit, AllFit, htask, hqueue]
      have hpass := allFit_pass vm (h.taking vm polled) htaken rd
      rw [hallFit] at hpass
      exact hpass
    · cases hs

theorem allFit_run {as : List HCPerfRunnable.Action} : ∀ {r : Thread}, Valid r → Listed r →
    run (step vm) r as = some r' → (AllFit r' ↔ AllFit r ∧ Along (step vm) (InLevels vm) r as) := by
  induction as with
  | nil =>
    intro r _ _ hrun
    obtain rfl := Option.some.inj hrun
    exact (and_iff_left trivial).symm
  | cons a as ih =>
    intro r h hl hrun
    obtain ⟨t, ht, hrun⟩ := run_cons.mp hrun
    obtain ⟨hlisted, hfit⟩ := allFit_step h hl ht
    rw [ih (h.step ht) hlisted hrun, hfit, and_assoc]
    refine and_congr_right fun _ => and_congr_right fun _ => ?_
    constructor
    · intro hrest t' ht'
      obtain rfl := Option.some.inj (ht.symm.trans ht')
      exact hrest
    · exact fun hrest => hrest t ht

end Levels

/-- Every record made in a run of the manager is saved whole, when the statistics take what
they are handed in turn, if and only if in no pass a request for a cpu or io level above 3 is
recorded with a task that has threads to bind. -/
theorem statistics_iff_inLevels (vm : Machine) (clock : Int) {as : List HCPerfRunnable.Action}
    {r : Thread} (hrun : run (step vm) (init clock) as = some r) {polls : List Poll}
    (hpolls : polls.map Poll.object = r.objectQueue) :
    Along (HCPerfStatThread.step r.sys.task) (Handles r.sys.task)
        (HCPerfStatThread.init r.sys.task) polls ↔
      Along (step vm) (InLevels vm) (init clock) as := by
  have hinit : AllFit (init clock) := fun _ hp => (nomatch hp)
  have hlisted : Listed (init clock) := fun _ hp => (nomatch hp)
  have hfit := allFit_run (valid_init clock) hlisted hrun
  rw [and_iff_right hinit] at hfit
  rw [handles_iff_fits, ← hfit, AllFit, ← hpolls]
  constructor
  · intro hpoll p hp
    obtain ⟨a, ha, hobject⟩ := List.mem_map.mp hp
    exact hpoll a ha p hobject
  · intro hall a ha p hobject
    exact hall p (List.mem_map.mpr ⟨a, ha, hobject⟩)

/-- A task of one thread that asks for the given cpu level. -/
def levelRun (cpuLevel : JInt) : List HCPerfRunnable.Action :=
  [.start ⟨0, cpuLevel, 0, 0, some [5], 1000, 1, 1, 1⟩ 5, .loop 1 (.still 7)]

/-- What the statistics get in the run, the cores being idle. -/
def levelPolls (r : Thread) : List Poll := r.objectQueue.map fun o => ⟨o, fun _ => 0⟩

theorem object_levelPolls (r : Thread) : (levelPolls r).map Poll.object = r.objectQueue := by
  rw [levelPolls, List.map_map]
  exact List.map_id _

theorem statistics_iff_inLevels_three : ∃ r, run (step exampleMachine) (init 0) (levelRun 3) = some r ∧
    (Along (HCPerfStatThread.step r.sys.task) (Handles r.sys.task)
        (HCPerfStatThread.init r.sys.task) (levelPolls r) ↔
      Along (step exampleMachine) (InLevels exampleMachine) (init 0) (levelRun 3)) :=
  ⟨_, rfl, statistics_iff_inLevels exampleMachine 0 rfl (object_levelPolls _)⟩

/-- `start` accepts level 4; the record of its request ends in an index error, when the time
of the last update has been set to 7 and nothing been charged. -/
theorem statistics_level_four : ∃ r, run (step exampleMachine) (init 0) (levelRun 4) = some r ∧
    ((run (HCPerfStatThread.step r.sys.task) (HCPerfStatThread.init r.sys.task) (levelPolls r)).map
      fun s => ((s.stat 0).lastUpdateTime, [0, 1, 2, 3].map (s.stat 0).cpu.timeArray)) =
        some (7, [0, 0, 0, 0]) ∧
    ¬ Along (HCPerfStatThread.step r.sys.task) (Handles r.sys.task)
      (HCPerfStatThread.init r.sys.task) (levelPolls r) := by
  refine ⟨_, rfl, by decide +kernel, fun h => ?_⟩
  have hcompletes := (h.1 _ rfl _ rfl).completes
  revert hcompletes
  decide +kernel

end HCPerfRunnable

end Hardcoder
