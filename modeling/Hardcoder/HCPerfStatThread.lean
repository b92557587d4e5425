import Hardcoder.HCPerfManager
import Hardcoder.Lib.Runs
import Hardcoder.Lib.Timeline

/-! `HCPerfStatThread` (HCPerfStatThread.java): how long each task ran at each level. -/

namespace Hardcoder
open Runs Timeline
set_option autoImplicit false

namespace HCPerfManager

def CPU_LEVEL_CANCEL : JInt := -1
def CPU_LEVEL_KEEP : JInt := -2
def GPU_LEVEL_CANCEL : JInt := -1
def GPU_LEVEL_KEEP : JInt := -2
def IO_LEVEL_CANCEL : JInt := -1
def IO_LEVEL_KEEP : JInt := -2

/-- `CPU_LEVEL_0` to `CPU_LEVEL_3`, and as many for io: an index of the arrays. -/
def IsLevel (level : JInt) : Prop := 0 ≤ level.toInt ∧ level.toInt < 4

instance (level : JInt) : Decidable (IsLevel level) := inferInstanceAs (Decidable (_ ∧ _))

end HCPerfManager

namespace HCPerfStatThread
open HCPerfManager

/-- `lastCpuLevel` and `cpuLevelTimeArray`, or `lastIoLevel` and `ioLevelTimeArray`. -/
structure LevelStat where
  last : JInt
  timeArray : JInt → JInt

namespace LevelStat

/-- `timeArray[level] += elapsedTime`, narrowed to an `int`; `false` for the exception. -/
def charge (s : LevelStat) (level : JInt) (elapsedTime : Int) : LevelStat × Bool :=
  if IsLevel level then
    let time := BitVec.ofInt 32 ((s.timeArray level).toInt + elapsedTime)
    ({ s with timeArray := Function.update s.timeArray level time }, true)
  else (s, false)

/-- The cases of `savePerformanceStatus` for one resource, with its codes. -/
def save (s : LevelStat) (CANCEL KEEP req : JInt) (elapsedTime : Int) : LevelStat × Bool :=
  if req ≠ CANCEL then
    if req = KEEP then s.charge s.last elapsedTime
    else { s with last := req }.charge req elapsedTime
  else { s with last := 0 }.charge 0 elapsedTime

end LevelStat

/-- The fields of a `PerformanceTask` that the thread writes. -/
structure TaskStat where
  cpu : LevelStat
  io : LevelStat
  lastUpdateTime : Int
  bindCoreThreadIdArray : Option (List JInt)
  averageCoreFreq : JLong

/-- What `new PerformanceTask()` and `start` leave in them. -/
def TaskStat.new (startTime : Int) : TaskStat where
  cpu := ⟨0, fun _ => 0⟩
  io := ⟨0, fun _ => 0⟩
  lastUpdateTime := startTime
  bindCoreThreadIdArray := none
  averageCoreFreq := 0

structure PerformanceStatus where
  time : Int
  listStartTask : List Nat
  reqCpuLevel : JInt
  reqGpuLevel : JInt
  reqIoLevel : JInt
  bindCoreThreadIdArray : Option (List JInt)

/-- An element of `objectQueue`. -/
inductive Object where
  | status (p : PerformanceStatus)
  /-- a task to report -/
  | task (t : Nat)

/-- The state of the thread, with the records that it has processed. -/
structure Sys where
  stat : Nat → TaskStat
  processed : List PerformanceStatus

section Save
variable (task : Nat → PerformanceTask) (coreFreq : JInt → JLong) (p : PerformanceStatus)

/-- `update` -/
def TaskStat.update (s : TaskStat) (updateCoreFreq : JLong) : TaskStat :=
  { s with averageCoreFreq := (s.averageCoreFreq + updateCoreFreq).sdiv 2 }

/-- The loop body of `savePerformanceStatus`; `false` when it throws. -/
def saveTask (s : TaskStat) (t : Nat) : TaskStat × Bool :=
  let elapsedTime := p.time - s.lastUpdateTime
  let s := { s with lastUpdateTime := p.time }
  let cpu := s.cpu.save CPU_LEVEL_CANCEL CPU_LEVEL_KEEP p.reqCpuLevel elapsedTime
  let s := { s with cpu := cpu.1 }
  if cpu.2 = false then (s, false)
  else
    let io := s.io.save IO_LEVEL_CANCEL IO_LEVEL_KEEP p.reqIoLevel elapsedTime
    let s := { s with io := io.1 }
    if io.2 = false then (s, false)
    else
      let s := { s with bindCoreThreadIdArray :=
        if p.bindCoreThreadIdArray.getD [] ≠ [] then p.bindCoreThreadIdArray
        else s.bindCoreThreadIdArray }
      -- the frequency of the core that the first thread runs on
      let coreFreq := coreFreq ((task t).bindTids.headD 0)
      let s := if s.averageCoreFreq = 0 then { s with averageCoreFreq := coreFreq } else s
      (s.update coreFreq, true)

/-- The loop; `run` catches the exception that ends it. -/
def savePerformanceStatus (stat : Nat → TaskStat) : List Nat → Nat → TaskStat
  | [] => stat
  | t :: ts =>
    if (task t).isNeedBindTids = false then savePerformanceStatus stat ts
    else
      let saved := saveTask task coreFreq p (stat t) t
      let stat := Function.update stat t saved.1
      if saved.2 then savePerformanceStatus stat ts else stat

end Save

/-- One object is taken from the queue; `coreFreq` is what the system files say of the
core of a thread then. -/
structure Poll where
  object : Object
  coreFreq : JInt → JLong

def step (task : Nat → PerformanceTask) (s : Sys) (a : Poll) : Option Sys :=
  match a.object with
  | .status p => some
    { stat := savePerformanceStatus task a.coreFreq p s.stat p.listStartTask
      processed := s.processed ++ [p] }
  -- `performanceReport` reads the task
  | .task _ => some s

def init (task : Nat → PerformanceTask) : Sys where
  stat := fun t => .new (task t).startTime
  processed := []

/-! ### What the arrays are to hold -/

/-- The level in force after a request for `req`, where `level` was. -/
def inForce (CANCEL KEEP req level : JInt) : JInt :=
  if req = KEEP then level else if req = CANCEL then 0 else req

/-- The records of the task, as they change the level of one resource. -/
def changes (t : Nat) (change : PerformanceStatus → JInt → JInt) (ps : List PerformanceStatus) :
    List (Change JInt) :=
  (ps.filter fun p => t ∈ p.listStartTask).map fun p => ⟨p.time, change p⟩

def cpuInForce (p : PerformanceStatus) : JInt → JInt :=
  inForce CPU_LEVEL_CANCEL CPU_LEVEL_KEEP p.reqCpuLevel

def ioInForce (p : PerformanceStatus) : JInt → JInt :=
  inForce IO_LEVEL_CANCEL IO_LEVEL_KEEP p.reqIoLevel

/-- The record has a level or a code for each resource. -/
structure PerformanceStatus.Coded (p : PerformanceStatus) : Prop where
  cpu : IsLevel p.reqCpuLevel ∨ p.reqCpuLevel = CPU_LEVEL_KEEP ∨ p.reqCpuLevel = CPU_LEVEL_CANCEL
  io : IsLevel p.reqIoLevel ∨ p.reqIoLevel = IO_LEVEL_KEEP ∨ p.reqIoLevel = IO_LEVEL_CANCEL

section Spec
variable (task : Nat → PerformanceTask) (t : Nat)

/-- Each entry is the length of the intervals in which its level was in force. -/
def LevelStat.Exact (s : LevelStat) (change : PerformanceStatus → JInt → JInt)
    (ps : List PerformanceStatus) : Prop :=
  ∀ l, IsLevel l → (s.timeArray l).toInt = stay (task t).startTime 0 (changes t change ps) l

def Exact (s : Sys) : Prop :=
  (s.stat t).cpu.Exact task t cpuInForce s.processed ∧
    (s.stat t).io.Exact task t ioInForce s.processed

/-- After the step the arrays of the task hold what they should. -/
def StaysExact (s : Sys) (a : Poll) : Prop := ∀ s', step task s a = some s' → Exact task t s'

/-- A record of the task comes no earlier than the one before, or the start of the task. -/
def Ordinary (s : Sys) (a : Poll) : Prop :=
  match a.object with
  | .status p => p.Coded ∧ (t ∈ p.listStartTask →
    lastTime (task t).startTime (changes t cpuInForce s.processed) ≤ p.time)
  | .task _ => True

/-- A level that changes does so at the time of the record before, and the entry of the
level does not overflow. -/
def LevelStat.Timely (s : LevelStat) (change : JInt → JInt) (elapsedTime : Int) : Prop :=
  (change s.last = s.last ∨ elapsedTime = 0) ∧
    (s.timeArray (change s.last)).toInt + elapsedTime < 2 ^ 31

def Timely (s : Sys) (a : Poll) : Prop :=
  match a.object with
  | .status p => t ∈ p.listStartTask →
    (s.stat t).cpu.Timely (cpuInForce p) (p.time - (s.stat t).lastUpdateTime) ∧
      (s.stat t).io.Timely (ioInForce p) (p.time - (s.stat t).lastUpdateTime)
  | .task _ => True

instance (p : PerformanceStatus) : Decidable p.Coded :=
  decidable_of_iff (_ ∧ _) ⟨fun h => ⟨h.1, h.2⟩, fun h => ⟨h.1, h.2⟩⟩

instance (s : LevelStat) (change : JInt → JInt) (elapsedTime : Int) :
    Decidable (s.Timely change elapsedTime) := inferInstanceAs (Decidable (_ ∧ _))

instance (s : Sys) : (a : Poll) → Decidable (Ordinary task t s a)
  | ⟨.status _, _⟩ => inferInstanceAs (Decidable (_ ∧ (_ → _)))
  | ⟨.task _, _⟩ => .isTrue trivial

instance (s : Sys) : (a : Poll) → Decidable (Timely t s a)
  | ⟨.status _, _⟩ => inferInstanceAs (Decidable (_ → _ ∧ _))
  | ⟨.task _, _⟩ => .isTrue trivial

end Spec

/-! ### One record -/

theorem inForce_inForce (CANCEL KEEP req level : JInt) :
    inForce CANCEL KEEP req (inForce CANCEL KEEP req level) = inForce CANCEL KEEP req level := by
  unfold inForce
  split
  · rfl
  · rfl

namespace LevelStat

/-- The level is set and the interval charged to it. -/
def charged (s : LevelStat) (level : JInt) (elapsedTime : Int) : LevelStat where
  last := level
  timeArray := Function.update s.timeArray level
    (BitVec.ofInt 32 ((s.timeArray level).toInt + elapsedTime))

variable {s : LevelStat} {CANCEL KEEP req : JInt} {e : Int}

theorem charged_zero (s : LevelStat) : s.charged s.last 0 = s := by
  rw [charged, Int.add_zero, BitVec.ofInt_toInt, Function.update_eq_self]

theorem isLevel_zero : IsLevel 0 := by decide

theorem isLevel_inForce (hlast : IsLevel s.last)
    (hreq : IsLevel req ∨ req = KEEP ∨ req = CANCEL) : IsLevel (inForce CANCEL KEEP req s.last) := by
  unfold inForce
  by_cases hkeep : req = KEEP
  · rwa [if_pos hkeep]
  rw [if_neg hkeep]
  by_cases hcancel : req = CANCEL
  · rw [if_pos hcancel]
    exact isLevel_zero
  · rw [if_neg hcancel]
    rcases hreq with h | h | h
    · exact h
    · exact absurd h hkeep
    · exact absurd h hcancel

theorem save_eq (hne : KEEP ≠ CANCEL) (hlast : IsLevel s.last)
    (hreq : IsLevel req ∨ req = KEEP ∨ req = CANCEL) :
    s.save CANCEL KEEP req e = (s.charged (inForce CANCEL KEEP req s.last) e, true) := by
  have hlevel := isLevel_inForce hlast hreq
  unfold inForce at hlevel
  unfold save inForce
  by_cases hcancel : req = CANCEL
  · rw [if_neg (not_not.mpr hcancel), if_neg (by rw [hcancel]; exact hne.symm), if_pos hcancel,
      charge, if_pos isLevel_zero]
    rfl
  · rw [if_pos hcancel]
    by_cases hkeep : req = KEEP
    · rw [if_pos hkeep, if_pos hkeep, charge, if_pos hlast]
      rfl
    · rw [if_neg hkeep, if_neg hcancel] at hlevel
      rw [if_neg hkeep, if_neg hkeep, if_neg hcancel, charge, if_pos hlevel]
      rfl

end LevelStat

/-- The task has been charged for the record. -/
structure Saved (p : PerformanceStatus) (s s' : TaskStat) : Prop where
  cpu : s'.cpu = s.cpu.charged (cpuInForce p s.cpu.last) (p.time - s.lastUpdateTime)
  io : s'.io = s.io.charged (ioInForce p s.io.last) (p.time - s.lastUpdateTime)
  time : s'.lastUpdateTime = p.time

/-- Both levels in force are indices of the arrays. -/
structure TaskStat.InRange (s : TaskStat) : Prop where
  cpu : IsLevel s.cpu.last
  io : IsLevel s.io.last

section Record
variable {task : Nat → PerformanceTask} {coreFreq : JInt → JLong} {p : PerformanceStatus}
  {s s' s'' : TaskStat}

theorem Saved.again (h : Saved p s s') (h' : Saved p s' s'') : Saved p s s'' := by
  have hcpu : s''.cpu = s'.cpu := by
    rw [h'.cpu, h.time, Int.sub_self]
    have hlast : cpuInForce p s'.cpu.last = s'.cpu.last := by
      rw [h.cpu]
      exact inForce_inForce _ _ _ _
    rw [hlast, LevelStat.charged_zero]
  have hio : s''.io = s'.io := by
    rw [h'.io, h.time, Int.sub_self]
    have hlast : ioInForce p s'.io.last = s'.io.last := by
      rw [h.io]
      exact inForce_inForce _ _ _ _
    rw [hlast, LevelStat.charged_zero]
  exact ⟨hcpu.trans h.cpu, hio.trans h.io, h'.time⟩

theorem saveTask_spec (hp : p.Coded) (h : s.InRange) (t : Nat) :
    ∃ s', saveTask task coreFreq p s t = (s', true) ∧ Saved p s s' ∧ s'.InRange := by
  have hcpu := LevelStat.save_eq (e := p.time - s.lastUpdateTime)
    (by decide : CPU_LEVEL_KEEP ≠ CPU_LEVEL_CANCEL) h.cpu hp.cpu
  have hio := LevelStat.save_eq (e := p.time - s.lastUpdateTime)
    (by decide : IO_LEVEL_KEEP ≠ IO_LEVEL_CANCEL) h.io hp.io
  have hcpuLevel : IsLevel (cpuInForce p s.cpu.last) := LevelStat.isLevel_inForce h.cpu hp.cpu
  have hioLevel : IsLevel (ioInForce p s.io.last) := LevelStat.isLevel_inForce h.io hp.io
  unfold saveTask
  dsimp only
  rw [hcpu, hio, if_neg Bool.noConfusion, if_neg Bool.noConfusion]
  refine ⟨_, rfl, ⟨?_, ?_, ?_⟩, ⟨?_, ?_⟩⟩
  all_goals
    unfold TaskStat.update
    dsimp only
    split
  all_goals first | rfl | exact hcpuLevel | exact hioLevel

/-- Every task of the record that has threads to bind is charged, and no other. -/
theorem savePerformanceStatus_spec (hp : p.Coded) (ts : List Nat) :
    ∀ {stat : Nat → TaskStat}, (∀ u, (stat u).InRange) →
      ∃ stat', savePerformanceStatus task coreFreq p stat ts = stat' ∧ (∀ u, (stat' u).InRange) ∧
        (∀ t, t ∈ ts → (task t).isNeedBindTids = true → Saved p (stat t) (stat' t)) ∧
        ∀ t, t ∉ ts → stat' t = stat t := by
  induction ts with
  | nil =>
    intro stat h
    exact ⟨stat, rfl, h, fun _ ht => (by cases ht), fun _ _ => rfl⟩
  | cons u ts ih =>
    intro stat h
    rw [savePerformanceStatus]
    by_cases hbind : (task u).isNeedBindTids = false
    · obtain ⟨stat', hstat', hrange, hsaved, hother⟩ := ih h
      rw [if_pos hbind]
      refine ⟨stat', hstat', hrange, fun t ht htbind => ?_, fun t ht => ?_⟩
      · rcases List.mem_cons.mp ht with rfl | ht
        · rw [hbind] at htbind
          cases htbind
        · exact hsaved t ht htbind
      · exact hother t fun hmem => ht (List.mem_cons_of_mem _ hmem)
    · obtain ⟨s', hs', hsave, hin⟩ := @saveTask_spec task coreFreq _ _ hp (h u) u
      rw [if_neg hbind]
      dsimp only
      rw [hs', if_pos rfl]
      have hrange' : ∀ v, (Function.update stat u s' v).InRange := by
        intro v
        by_cases hv : v = u
        · rw [hv, Function.update_self]
          exact hin
        · rw [Function.update_of_ne hv]
          exact h v
      obtain ⟨stat', hstat', hrange, hsaved, hother⟩ := ih hrange'
      refine ⟨stat', hstat', hrange, fun t ht htbind => ?_, fun t ht => ?_⟩
      · by_cases htu : t = u
        · have hnow : Saved p (stat t) (Function.update stat u s' t) := by
            rw [htu, Function.update_self]
            exact hsave
          by_cases hmem : t ∈ ts
          · exact hnow.again (hsaved t hmem htbind)
          · rw [hother t hmem]
            exact hnow
        · have hmem := (List.mem_cons.mp ht).resolve_left htu
          have hlater := hsaved t hmem htbind
          rwa [Function.update_of_ne htu] at hlater
      · obtain ⟨htu, hmem⟩ := not_or.mp (fun hor => ht (List.mem_cons.mpr hor))
        rw [hother t hmem, Function.update_of_ne htu]

end Record

/-! ### Runs -/

section Runs
variable (task : Nat → PerformanceTask) (t : Nat)

theorem changes_concat {change : PerformanceStatus → JInt → JInt} {ps : List PerformanceStatus}
    {p : PerformanceStatus} (ht : t ∈ p.listStartTask) :
    changes t change (ps ++ [p]) = changes t change ps ++ [⟨p.time, change p⟩] := by
  rw [changes, List.filter_append, List.map_append]
  simp only [List.filter_cons, ht, decide_true, if_true]
  rfl

theorem changes_concat_of_notMem {change : PerformanceStatus → JInt → JInt}
    {ps : List PerformanceStatus} {p : PerformanceStatus} (ht : t ∉ p.listStartTask) :
    changes t change (ps ++ [p]) = changes t change ps := by
  rw [changes, List.filter_append]
  simp only [List.filter_cons, ht, decide_false]
  exact congrArg _ (List.append_nil _)

/-- The times of the records do not depend on the resource. -/
theorem lastTime_changes (start : Int) (change change' : PerformanceStatus → JInt → JInt)
    (ps : List PerformanceStatus) :
    lastTime start (changes t change ps) = lastTime start (changes t change' ps) := by
  rw [lastTime, lastTime, changes, changes, List.foldl_map, List.foldl_map]

/-- The level in force and the time of the last record are those kept, and the entries are
exact. -/
structure LevelStat.Tracks (s : LevelStat) (change : PerformanceStatus → JInt → JInt)
    (ps : List PerformanceStatus) : Prop where
  last : s.last = levelAfter 0 (changes t change ps)
  exact : s.Exact task t change ps

variable {task t}

theorem LevelStat.exact_charged_iff {s : LevelStat} {change : PerformanceStatus → JInt → JInt}
    {ps : List PerformanceStatus} {p : PerformanceStatus} {lastUpdateTime : Int}
    (h : s.Tracks task t change ps) (hlast : IsLevel s.last) (hlevel : IsLevel (change p s.last))
    (htime : lastUpdateTime = lastTime (task t).startTime (changes t change ps))
    (hle : lastUpdateTime ≤ p.time) (ht : t ∈ p.listStartTask) :
    (s.charged (change p s.last) (p.time - lastUpdateTime)).Exact task t change (ps ++ [p]) ↔
      s.Timely (change p) (p.time - lastUpdateTime) := by
  obtain ⟨e, he⟩ : ∃ e, e = p.time - lastUpdateTime := ⟨_, rfl⟩
  obtain ⟨level, hlv⟩ : ∃ level, level = change p s.last := ⟨_, rfl⟩
  have hstay : ∀ l, IsLevel l → stay (task t).startTime 0 (changes t change (ps ++ [p])) l =
      (s.timeArray l).toInt + if s.last = l then e else 0 := by
    intro l hl
    rw [changes_concat t ht, stay_concat, ← h.last, ← htime, ← h.exact l hl, he]
  have hlow := BitVec.le_toInt (s.timeArray level)
  rw [LevelStat.Timely, ← he, ← hlv]
  constructor
  · intro hexact
    have hchange : level = s.last ∨ e = 0 := by
      by_contra hnot
      rw [not_or] at hnot
      have hentry := hexact s.last hlast
      rw [hstay _ hlast, if_pos rfl, charged] at hentry
      dsimp only at hentry
      rw [Function.update_of_ne (Ne.symm hnot.1)] at hentry
      omega
    refine ⟨hchange, ?_⟩
    rcases hchange with hsame | hzero
    · have hentry := hexact level (hlv ▸ hlevel)
      rw [hstay _ (hlv ▸ hlevel), if_pos hsame.symm, charged] at hentry
      dsimp only at hentry
      rw [Function.update_self] at hentry
      have hsmall := BitVec.toInt_lt (x := BitVec.ofInt 32 ((s.timeArray level).toInt + e))
      omega
    · have hsmall := BitVec.toInt_lt (x := s.timeArray level)
      omega
  · rintro ⟨hchange, hsmall⟩ l hl
    rw [hstay l hl, charged]
    dsimp only
    by_cases hll : l = level
    · rw [hll, Function.update_self, BitVec.toInt_ofInt_eq_self (by decide) (by omega) hsmall]
      by_cases hsame : level = s.last
      · rw [if_pos hsame.symm]
      · rw [if_neg (Ne.symm hsame), hchange.resolve_left hsame]
    · rw [Function.update_of_ne hll]
      by_cases hlastl : s.last = l
      · rw [if_pos hlastl, hchange.resolve_left (fun heq => hll (hlastl ▸ heq.symm)), Int.add_zero]
      · rw [if_neg hlastl, Int.add_zero]

variable (task t)

/-- The task's statistics are those of the records processed. -/
structure Inv (s : Sys) : Prop where
  range : ∀ u, (s.stat u).InRange
  cpu : (s.stat t).cpu.Tracks task t cpuInForce s.processed
  io : (s.stat t).io.Tracks task t ioInForce s.processed
  time : (s.stat t).lastUpdateTime =
    lastTime (task t).startTime (changes t cpuInForce s.processed)

variable {task t} {s s' : Sys} {a : Poll}

theorem inv_init : Inv task t (init task) where
  range _ := ⟨LevelStat.isLevel_zero, LevelStat.isLevel_zero⟩
  cpu := ⟨rfl, fun _ _ => rfl⟩
  io := ⟨rfl, fun _ _ => rfl⟩
  time := rfl

/-- What a record does to the statistics of the task. -/
theorem step_status (h : Inv task t s) (hbind : (task t).isNeedBindTids = true)
    {p : PerformanceStatus} (ha : a.object = .status p) (hp : p.Coded) :
    ∃ stat', step task s a = some ⟨stat', s.processed ++ [p]⟩ ∧ (∀ u, (stat' u).InRange) ∧
      (t ∈ p.listStartTask → Saved p (s.stat t) (stat' t)) ∧
      (t ∉ p.listStartTask → stat' t = s.stat t) := by
  obtain ⟨stat', hstat', hrange, hsaved, hother⟩ :=
    @savePerformanceStatus_spec task a.coreFreq _ hp p.listStartTask _ h.range
  refine ⟨stat', ?_, hrange, fun ht => hsaved t ht hbind, hother t⟩
  rw [step, ha]
  dsimp only
  rw [hstat']

theorem step_task {u : Nat} (ha : a.object = .task u) : step task s a = some s := by
  rw [step, ha]

/-- A record that is not the task's changes nothing of it. -/
theorem LevelStat.Tracks.other {c : LevelStat} {change : PerformanceStatus → JInt → JInt}
    {ps : List PerformanceStatus} (h : c.Tracks task t change ps) {p : PerformanceStatus}
    (ht : t ∉ p.listStartTask) : c.Tracks task t change (ps ++ [p]) := by
  have hsame := @changes_concat_of_notMem t change ps p ht
  refine ⟨by rw [hsame]; exact h.last, fun l hl => ?_⟩
  rw [hsame]
  exact h.exact l hl

theorem LevelStat.last_charged {c : LevelStat} {change : PerformanceStatus → JInt → JInt}
    {ps : List PerformanceStatus} (h : c.Tracks task t change ps) {p : PerformanceStatus}
    (ht : t ∈ p.listStartTask) (e : Int) :
    (c.charged (change p c.last) e).last = levelAfter 0 (changes t change (ps ++ [p])) := by
  rw [changes_concat t ht, levelAfter_concat, ← h.last]
  rfl

theorem Inv.step (hbind : (task t).isNeedBindTids = true) (h : Inv task t s)
    (hord : Ordinary task t s a) (hexact : StaysExact task t s a)
    (hstep : HCPerfStatThread.step task s a = some s') : Inv task t s' := by
  cases ha : a.object with
  | task u =>
    obtain rfl := Option.some.inj ((step_task ha).symm.trans hstep)
    exact h
  | status p =>
    rw [Ordinary, ha] at hord
    obtain ⟨stat', hs', hrange, hsaved, hother⟩ := step_status h hbind ha hord.1
    obtain rfl := Option.some.inj (hs'.symm.trans hstep)
    by_cases ht : t ∈ p.listStartTask
    · have hsave := hsaved ht
      obtain ⟨hcpu, hio⟩ := hexact _ hs'
      refine ⟨hrange, ⟨?_, hcpu⟩, ⟨?_, hio⟩, ?_⟩
      · dsimp only
        rw [hsave.cpu]
        exact LevelStat.last_charged h.cpu ht _
      · dsimp only
        rw [hsave.io]
        exact LevelStat.last_charged h.io ht _
      · dsimp only
        rw [hsave.time, changes_concat t ht, lastTime_concat]
    · have hsame := hother ht
      refine ⟨hrange, ?_, ?_, ?_⟩
      · dsimp only
        rw [hsame]
        exact h.cpu.other ht
      · dsimp only
        rw [hsame]
        exact h.io.other ht
      · dsimp only
        rw [hsame, changes_concat_of_notMem t ht]
        exact h.time

theorem staysExact_iff_timely (hbind : (task t).isNeedBindTids = true) (h : Inv task t s)
    (hord : Ordinary task t s a) : StaysExact task t s a ↔ Timely t s a := by
  cases ha : a.object with
  | task u =>
    refine iff_of_true (fun s' hs' => ?_) ?_
    · obtain rfl := Option.some.inj ((step_task ha).symm.trans hs')
      exact ⟨h.cpu.exact, h.io.exact⟩
    · rw [Timely, ha]
      trivial
  | status p =>
    rw [Ordinary, ha] at hord
    obtain ⟨hcoded, hle⟩ := hord
    obtain ⟨stat', hs', hrange, hsaved, hother⟩ := step_status h hbind ha hcoded
    have hstays : StaysExact task t s a ↔ Exact task t ⟨stat', s.processed ++ [p]⟩ := by
      constructor
      · exact fun hexact => hexact _ hs'
      · intro hexact s' hstep
        obtain rfl := Option.some.inj (hs'.symm.trans hstep)
        exact hexact
    rw [hstays, Timely, ha, Exact]
    dsimp only
    by_cases ht : t ∈ p.listStartTask
    · have hsave := hsaved ht
      have hle' : (s.stat t).lastUpdateTime ≤ p.time := by
        rw [h.time]
        exact hle ht
      have hcpu := LevelStat.exact_charged_iff h.cpu (h.range t).cpu
        (LevelStat.isLevel_inForce (h.range t).cpu hcoded.cpu) h.time hle' ht
      have hio := LevelStat.exact_charged_iff h.io (h.range t).io
        (LevelStat.isLevel_inForce (h.range t).io hcoded.io)
        (h.time.trans (lastTime_changes t _ _ _ _)) hle' ht
      rw [hsave.cpu, hsave.io]
      constructor
      · exact fun hexact _ => ⟨hcpu.mp hexact.1, hio.mp hexact.2⟩
      · exact fun htimely => ⟨hcpu.mpr (htimely ht).1, hio.mpr (htimely ht).2⟩
    · rw [hother ht]
      exact iff_of_true ⟨(h.cpu.other ht).exact, (h.io.other ht).exact⟩ fun hmem => absurd hmem ht

/-- The entries are exact after every record just when each change of a level comes at the
time of the record before, and no entry overflows. -/
theorem stayTime_iff_timely (hbind : (task t).isNeedBindTids = true) {as : List Poll}
    (hord : Along (step task) (Ordinary task t) (init task) as) :
    Along (step task) (StaysExact task t) (init task) as ↔
      Along (step task) (Timely t) (init task) as :=
  along_congr_of (fun h hord hexact hstep => Inv.step hbind h hord hexact hstep)
    (fun h hord => staysExact_iff_timely hbind h hord) inv_init hord

end Runs

/-- A task of one thread that starts at 0. -/
def oneThread (_ : Nat) : PerformanceTask where
  cpuLevel := 1
  gpuLevel := 0
  ioLevel := 0
  bindTids := [7]
  scene := 1
  action := 0
  callerTid := 7
  startTime := 0
  stopTime := 100

/-- A record of the task, in which only the level of the cpu may change. -/
def cpuRecord (time : Int) (reqCpuLevel : JInt) : Poll where
  object := .status ⟨time, [0], reqCpuLevel, GPU_LEVEL_KEEP, IO_LEVEL_KEEP, none⟩
  coreFreq := fun _ => 1000

/-- The level is requested when the task starts, and kept. -/
theorem stayTime_iff_timely_kept : Along (step oneThread) (StaysExact oneThread 0) (init oneThread)
    [cpuRecord 0 1, cpuRecord 10 CPU_LEVEL_KEEP] :=
  (stayTime_iff_timely (by decide) (along_of_check (by decide))).mpr (along_of_check (by decide))

/-- The level is requested five milliseconds after the start: they are charged to it. -/
theorem stayTime_late : Along (step oneThread) (Ordinary oneThread 0) (init oneThread)
      [cpuRecord 5 1] ∧
    ¬ Along (step oneThread) (StaysExact oneThread 0) (init oneThread) [cpuRecord 5 1] := by
  refine ⟨along_of_check (by decide), fun h => ?_⟩
  have hexact := (staysExact_iff_timely (by decide) inv_init (by decide)).mp h.1
  exact absurd hexact (by decide)

end HCPerfStatThread

end Hardcoder
