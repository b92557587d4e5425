import Hardcoder.Lib.SortedMap
import Hardcoder.ThreadJiffiesMonitor

/-! The monitors that Java starts and stops by a number
(com_tencent_mm_hardcoder_HardCoderJNI.cpp). -/

namespace Hardcoder
open Runs Strtol
set_option autoImplicit false

variable {CPU_COUNT : Nat}

/-- What an address that `new` has returned stands for; the object is never deleted. -/
inductive Monitor (CPU_COUNT : Nat) where
  | failed
  | active (m : ThreadJiffiesMonitor CPU_COUNT)
  /-- joined, and the readers deleted -/
  | stopped (m : ThreadJiffiesMonitor CPU_COUNT)

structure TraceRegistry (CPU_COUNT : Nat) where
  g_monitorMap : SortedMap Int (BitVec 64)
  heap : BitVec 64 → Option (Monitor CPU_COUNT)

namespace TraceRegistry

def NULL : BitVec 64 := 0

/-- The low 32 bits of a pointer, an `int`. -/
def TOINT (x : BitVec 64) : BitVec 32 := x.setWidth 32

def new : TraceRegistry CPU_COUNT := ⟨.empty, fun _ => none⟩

variable (long : CLong)

/-- `pmonitor` is what `new` returns, the blocks are those of its readers. -/
def startTraceCpuLoad (s : TraceRegistry CPU_COUNT) (linuxTid sampleRate : BitVec 32) (pmonitor : BitVec 64)
    (blocks : ThreadJiffiesMonitor.Heap CPU_COUNT) (now : BitVec 64) (io : ProcFileReader.Io) :
    Option (BitVec 32 × TraceRegistry CPU_COUNT) := do
  match ← ThreadJiffiesMonitor.start long blocks now io linuxTid (sampleRate.signExtend 64) with
  | .error _ => return (0, { s with heap := Function.update s.heap pmonitor (some .failed) })
  | .ok m => return (TOINT pmonitor, {
      g_monitorMap := s.g_monitorMap.set (TOINT pmonitor).toInt pmonitor
      heap := Function.update s.heap pmonitor (some (.active m)) })

/-- `g_monitorMap[id]`, which adds NULL for an `id` that is not there. -/
def index (s : TraceRegistry CPU_COUNT) (id : BitVec 32) : BitVec 64 × TraceRegistry CPU_COUNT :=
  match s.g_monitorMap.get? id.toInt with
  | some pmonitor => (pmonitor, s)
  | none => (NULL, { s with g_monitorMap := s.g_monitorMap.set id.toInt NULL })

/-- `none` when `stop` is called through NULL, or for a monitor that was stopped before. -/
def stopTraceCpuLoad (s : TraceRegistry CPU_COUNT) (id : BitVec 32) (now : BitVec 64) :
    Option (BitVec 32 × TraceRegistry CPU_COUNT) :=
  if id = 0 then some (-1, s)
  else
    let (pmonitor, s) := s.index id
    match s.heap pmonitor with
    | some (.active m) => some ((m.stop now).2.setWidth 32,
        { s with heap := Function.update s.heap pmonitor (some (.stopped m)) })
    | _ => none

inductive Action (CPU_COUNT : Nat) where
  | startTraceCpuLoad (linuxTid sampleRate : BitVec 32) (pmonitor : BitVec 64)
      (blocks : ThreadJiffiesMonitor.Heap CPU_COUNT) (now : BitVec 64) (io : ProcFileReader.Io)
  /-- a pass of the thread of a monitor -/
  | sample (pmonitor : BitVec 64) (sample : ThreadJiffiesMonitor.Sample)
  | stopTraceCpuLoad (id : BitVec 32) (now : BitVec 64)

/-- An address that `new` may return. -/
def Free (s : TraceRegistry CPU_COUNT) (pmonitor : BitVec 64) : Prop :=
  pmonitor ≠ NULL ∧ (s.heap pmonitor).isNone

instance (s : TraceRegistry CPU_COUNT) (pmonitor : BitVec 64) : Decidable (s.Free pmonitor) :=
  inferInstanceAs (Decidable (_ ∧ _))

def step (s : TraceRegistry CPU_COUNT) : Action CPU_COUNT → Option (TraceRegistry CPU_COUNT)
  | .startTraceCpuLoad linuxTid sampleRate pmonitor blocks now io =>
    if s.Free pmonitor then
      (s.startTraceCpuLoad long linuxTid sampleRate pmonitor blocks now io).map (·.2)
    else none
  | .sample pmonitor sample =>
    match s.heap pmonitor with
    | some (.active m) => (m.step long sample).map fun m =>
        { s with heap := Function.update s.heap pmonitor (some (.active m)) }
    | _ => none
  | .stopTraceCpuLoad id now => (s.stopTraceCpuLoad id now).map (·.2)

/-! ### What a caller relies on -/

def Active (s : TraceRegistry CPU_COUNT) (pmonitor : BitVec 64) : Prop :=
  ∃ m, s.heap pmonitor = some (.active m)

/-- The number of a monitor that was started and not yet stopped. -/
def ActiveId (s : TraceRegistry CPU_COUNT) (id : BitVec 32) : Prop :=
  ∃ pmonitor, s.Active pmonitor ∧ TOINT pmonitor = id

structure Distinct (s : TraceRegistry CPU_COUNT) : Prop where
  nonzero : ∀ p, s.Active p → TOINT p ≠ 0
  injective : ∀ p q, s.Active p → s.Active q → TOINT p = TOINT q → p = q

/-- Only an active monitor is stopped, and it is the one of the number; for any other number
there is an error and nothing changes. -/
def Good (s : TraceRegistry CPU_COUNT) : Action CPU_COUNT → Prop
  | .stopTraceCpuLoad id now =>
    (∀ ret s', s.stopTraceCpuLoad id now = some (ret, s') →
      ∀ p, s.Active p → ¬ s'.Active p → TOINT p = id) ∧
    (s.ActiveId id → ∃ ret s', s.stopTraceCpuLoad id now = some (ret, s') ∧ ¬ s'.ActiveId id) ∧
    (¬ s.ActiveId id → s.stopTraceCpuLoad id now = some (-1, s))
  | a => ∀ s', s.step long a = some s' → Distinct s'

/-- A monitor that gets started has an address whose low half is not zero and not that of an
active one; a number is stopped while it is active, or is zero. -/
def Sound (s : TraceRegistry CPU_COUNT) : Action CPU_COUNT → Prop
  | .startTraceCpuLoad linuxTid sampleRate pmonitor blocks now io => s.Free pmonitor →
    ∀ m, ThreadJiffiesMonitor.start long blocks now io linuxTid (sampleRate.signExtend 64) =
        some (.ok m) →
      TOINT pmonitor ≠ 0 ∧ ∀ p, s.Active p → TOINT p ≠ TOINT pmonitor
  | .sample _ _ => True
  | .stopTraceCpuLoad id _ => id = 0 ∨ s.ActiveId id

/-! ### The map and the monitors -/

/-- The map finds every active monitor under its number. -/
structure Mapped (s : TraceRegistry CPU_COUNT) : Prop where
  null : s.heap NULL = none
  distinct : Distinct s
  found : ∀ p, s.Active p → s.g_monitorMap.get? (TOINT p).toInt = some p
  number : ∀ id p, s.g_monitorMap.get? id = some p → (TOINT p).toInt = id

theorem not_active_new (p : BitVec 64) : ¬ (new : TraceRegistry CPU_COUNT).Active p := by
  rintro ⟨m, hm⟩
  cases hm

theorem mapped_new : Mapped (new : TraceRegistry CPU_COUNT) where
  null := rfl
  distinct := ⟨fun p hp => absurd hp (not_active_new p), fun p _ hp => absurd hp (not_active_new p)⟩
  found p hp := absurd hp (not_active_new p)
  number _ _ h := nomatch h

theorem Mapped.ne_null {s : TraceRegistry CPU_COUNT} (hs : Mapped s) {p : BitVec 64}
    {v : Monitor CPU_COUNT} (hp : s.heap p = some v) : NULL ≠ p := by
  rintro rfl
  rw [hs.null] at hp
  cases hp

section Write
variable {s : TraceRegistry CPU_COUNT} {pmonitor : BitVec 64} (map : SortedMap Int (BitVec 64))

theorem active_of_ne (v : Option (Monitor CPU_COUNT)) {p : BitVec 64} (hp : p ≠ pmonitor) :
    Active ⟨map, Function.update s.heap pmonitor v⟩ p ↔ s.Active p := by
  unfold Active
  dsimp only
  rw [Function.update_of_ne hp]

theorem active_self (m : ThreadJiffiesMonitor CPU_COUNT) :
    Active ⟨map, Function.update s.heap pmonitor (some (.active m))⟩ pmonitor :=
  ⟨m, Function.update_self ..⟩

/-- A monitor that is written as another one but not as active. -/
theorem active_iff_of_not {v : Option (Monitor CPU_COUNT)} (hv : ∀ m, v ≠ some (.active m))
    (p : BitVec 64) :
    Active ⟨map, Function.update s.heap pmonitor v⟩ p ↔ p ≠ pmonitor ∧ s.Active p := by
  by_cases hp : p = pmonitor
  · subst hp
    refine iff_of_false ?_ fun h => h.1 rfl
    rintro ⟨m, hm⟩
    dsimp only at hm
    rw [Function.update_self] at hm
    exact hv m hm
  · rw [active_of_ne map v hp, and_iff_right hp]

theorem active_iff (m : ThreadJiffiesMonitor CPU_COUNT) (p : BitVec 64) :
    Active ⟨map, Function.update s.heap pmonitor (some (.active m))⟩ p ↔ p = pmonitor ∨ s.Active p := by
  by_cases hp : p = pmonitor
  · subst hp
    exact iff_of_true (active_self map m) (.inl rfl)
  · rw [active_of_ne map _ hp, or_iff_right hp]

end Write

theorem not_active_of_isNone {s : TraceRegistry CPU_COUNT} {p : BitVec 64} (h : (s.heap p).isNone) :
    ¬ s.Active p := by
  rintro ⟨m, hm⟩
  rw [hm] at h
  cases h

/-- With fewer active monitors. -/
theorem Distinct.mono {s s' : TraceRegistry CPU_COUNT} (h : Distinct s)
    (hactive : ∀ p, s'.Active p → s.Active p) : Distinct s' :=
  ⟨fun p hp => h.nonzero p (hactive p hp),
    fun p q hp hq => h.injective p q (hactive p hp) (hactive q hq)⟩

/-! ### Stopping -/

section Stop
variable {s : TraceRegistry CPU_COUNT} {id : BitVec 32} {now : BitVec 64}

theorem stop_active (hs : Mapped s) {p : BitVec 64} {m : ThreadJiffiesMonitor CPU_COUNT}
    (hp : s.heap p = some (.active m)) (hid : TOINT p = id) :
    s.stopTraceCpuLoad id now = some ((m.stop now).2.setWidth 32,
      { s with heap := Function.update s.heap p (some (.stopped m)) }) := by
  have hne : id ≠ 0 := hid ▸ hs.distinct.nonzero p ⟨m, hp⟩
  have hindex : s.index id = (p, s) := by
    rw [index, ← hid, hs.found p ⟨m, hp⟩]
  rw [stopTraceCpuLoad, if_neg hne, hindex]
  dsimp only
  rw [hp]

/-- `stop` is called through NULL or for a monitor that is not active. -/
theorem stop_not_active (hs : Mapped s) (hne : id ≠ 0) (hid : ¬ s.ActiveId id) :
    s.stopTraceCpuLoad id now = none := by
  rw [stopTraceCpuLoad, if_neg hne]
  unfold index
  cases hget : s.g_monitorMap.get? id.toInt with
  | none =>
    dsimp only
    rw [hs.null]
  | some p =>
    dsimp only
    split
    · rename_i m hp
      have hnumber : TOINT p = id := BitVec.toInt_inj.mp (hs.number _ p hget)
      exact absurd ⟨p, ⟨m, hp⟩, hnumber⟩ hid
    · rfl

theorem good_iff_stop (hs : Mapped s) :
    Good long s (.stopTraceCpuLoad id now) ↔ Sound long s (.stopTraceCpuLoad id now) := by
  constructor
  · intro hgood
    by_contra hsound
    obtain ⟨hne, hid⟩ := not_or.mp hsound
    have herror := hgood.2.2 hid
    rw [stop_not_active hs hne hid] at herror
    cases herror
  · intro hsound
    by_cases hid : s.ActiveId id
    · obtain ⟨p, ⟨m, hp⟩, hnumber⟩ := hid
      have hstop := @stop_active _ _ id now hs _ _ hp hnumber
      have hactive := @active_iff_of_not _ s p s.g_monitorMap (some (.stopped m)) nofun
      have hid : s.ActiveId id := ⟨p, ⟨m, hp⟩, hnumber⟩
      refine ⟨fun ret s' h q hq hnot => ?_, fun _ => ⟨_, _, hstop, ?_⟩, fun h => absurd hid h⟩
      · rw [hstop] at h
        cases h
        by_contra hne
        have hqp : q ≠ p := fun h => hne (h ▸ hnumber)
        exact hnot ((hactive q).mpr ⟨hqp, hq⟩)
      · rintro ⟨q, hq, hsame⟩
        obtain ⟨hqp, hq⟩ := (hactive q).mp hq
        exact hqp (hs.distinct.injective q p hq ⟨m, hp⟩ (hsame.trans hnumber.symm))
    · have hzero := hsound.resolve_right hid
      have herror : s.stopTraceCpuLoad id now = some (-1, s) := if_pos hzero
      refine ⟨fun ret s' h q hq hnot => ?_, fun h => absurd h hid, fun _ => herror⟩
      rw [herror] at h
      cases h
      exact absurd hq hnot

end Stop

/-! ### Starting -/

/-- A step with nothing but a monitor that is written and, if it is a new one, its number. -/
theorem step_start_cases {s s' : TraceRegistry CPU_COUNT} {linuxTid sampleRate : BitVec 32}
    {pmonitor : BitVec 64} {blocks : ThreadJiffiesMonitor.Heap CPU_COUNT} {now : BitVec 64}
    {io : ProcFileReader.Io}
    (h : s.step long (.startTraceCpuLoad linuxTid sampleRate pmonitor blocks now io) = some s') :
    s.Free pmonitor ∧
      ((∃ e, ThreadJiffiesMonitor.start long blocks now io linuxTid (sampleRate.signExtend 64) =
            some (.error e) ∧
        s' = { s with heap := Function.update s.heap pmonitor (some .failed) }) ∨
      ∃ m, ThreadJiffiesMonitor.start long blocks now io linuxTid (sampleRate.signExtend 64) =
            some (.ok m) ∧
        s' = {
          g_monitorMap := s.g_monitorMap.set (TOINT pmonitor).toInt pmonitor
          heap := Function.update s.heap pmonitor (some (.active m)) }) := by
  rw [step, Option.ite_none_right_eq_some] at h
  obtain ⟨hfree, h⟩ := h
  obtain ⟨⟨ret, t⟩, hstart, rfl⟩ := Option.map_eq_some_iff.mp h
  obtain ⟨r, hr, hresult⟩ := Option.bind_eq_some_iff.mp hstart
  refine ⟨hfree, ?_⟩
  cases r with
  | error e =>
    cases hresult
    exact .inl ⟨e, hr, rfl⟩
  | ok m =>
    cases hresult
    exact .inr ⟨m, hr, rfl⟩

section Start
variable {s : TraceRegistry CPU_COUNT} {linuxTid sampleRate : BitVec 32} {pmonitor : BitVec 64}
  {blocks : ThreadJiffiesMonitor.Heap CPU_COUNT} {now : BitVec 64} {io : ProcFileReader.Io}

/-- One more active monitor. -/
theorem distinct_iff (hs : Distinct s) (hfree : s.Free pmonitor) (m : ThreadJiffiesMonitor CPU_COUNT)
    (map : SortedMap Int (BitVec 64)) :
    Distinct ⟨map, Function.update s.heap pmonitor (some (.active m))⟩ ↔
      TOINT pmonitor ≠ 0 ∧ ∀ p, s.Active p → TOINT p ≠ TOINT pmonitor := by
  have hactive := @active_iff _ s pmonitor map m
  constructor
  · intro h
    refine ⟨h.nonzero pmonitor (active_self map m), fun p hp hsame => ?_⟩
    obtain rfl := h.injective p pmonitor ((hactive p).mpr (.inr hp)) (active_self map m) hsame
    exact not_active_of_isNone hfree.2 hp
  · rintro ⟨hzero, hother⟩
    refine ⟨fun p hp => ?_, fun p q hp hq hsame => ?_⟩
    · rcases (hactive p).mp hp with rfl | hp
      · exact hzero
      · exact hs.nonzero p hp
    · rcases (hactive p).mp hp with rfl | hold
      · rcases (hactive q).mp hq with rfl | hold
        · rfl
        · exact absurd hsame.symm (hother q hold)
      · rcases (hactive q).mp hq with rfl | hold'
        · exact absurd hsame (hother p hold)
        · exact hs.injective p q hold hold' hsame

theorem good_iff_start (hs : Mapped s) :
    Good long s (.startTraceCpuLoad linuxTid sampleRate pmonitor blocks now io) ↔
      Sound long s (.startTraceCpuLoad linuxTid sampleRate pmonitor blocks now io) := by
  constructor
  · intro hgood hfree m hm
    have hstep : s.step long (.startTraceCpuLoad linuxTid sampleRate pmonitor blocks now io) = some {
        g_monitorMap := s.g_monitorMap.set (TOINT pmonitor).toInt pmonitor
        heap := Function.update s.heap pmonitor (some (.active m)) } := by
      rw [step, if_pos hfree, startTraceCpuLoad, hm]
      rfl
    exact (distinct_iff hs.distinct hfree m _).mp (hgood _ hstep)
  · intro hsound s' h
    obtain ⟨hfree, ⟨e, -, rfl⟩ | ⟨m, hm, rfl⟩⟩ := step_start_cases long h
    · refine hs.distinct.mono fun p hp => ?_
      exact ((@active_iff_of_not _ s pmonitor s.g_monitorMap (some .failed) nofun p).mp hp).2
    · exact (distinct_iff hs.distinct hfree m _).mpr (hsound hfree m hm)

theorem mapped_start {s' : TraceRegistry CPU_COUNT} (hs : Mapped s)
    (hsound : Sound long s (.startTraceCpuLoad linuxTid sampleRate pmonitor blocks now io))
    (h : s.step long (.startTraceCpuLoad linuxTid sampleRate pmonitor blocks now io) = some s') :
    Mapped s' := by
  have hdistinct := (good_iff_start long hs).mpr hsound s' h
  obtain ⟨hfree, ⟨e, -, rfl⟩ | ⟨m, hm, rfl⟩⟩ := step_start_cases long h
  · refine ⟨?_, hdistinct, fun p hp => ?_, hs.number⟩
    · exact (Function.update_of_ne hfree.1.symm ..).trans hs.null
    · exact hs.found p ((@active_iff_of_not _ s pmonitor s.g_monitorMap (some .failed) nofun p).mp hp).2
  · obtain ⟨-, hother⟩ := hsound hfree m hm
    refine ⟨?_, hdistinct, fun p hp => ?_, fun id p hget => ?_⟩
    · exact (Function.update_of_ne hfree.1.symm ..).trans hs.null
    · dsimp only
      rcases (active_iff _ m p).mp hp with rfl | hp
      · exact SortedMap.get?_set_self ..
      · have hkey : (TOINT p).toInt ≠ (TOINT pmonitor).toInt :=
          fun h => hother p hp (BitVec.toInt_inj.mp h)
        rw [SortedMap.get?_set_of_ne _ hkey]
        exact hs.found p hp
    · dsimp only at hget
      by_cases hid : id = (TOINT pmonitor).toInt
      · subst hid
        rw [SortedMap.get?_set_self] at hget
        rw [Option.some.inj hget]
      · rw [SortedMap.get?_set_of_ne _ hid] at hget
        exact hs.number id p hget

end Start

/-! ### Runs -/

theorem mapped_sample {s s' : TraceRegistry CPU_COUNT} {pmonitor : BitVec 64}
    {sample : ThreadJiffiesMonitor.Sample} (hs : Mapped s)
    (h : s.step long (.sample pmonitor sample) = some s') : Mapped s' := by
  rw [step] at h
  split at h
  · rename_i m hm
    obtain ⟨m', -, rfl⟩ := Option.map_eq_some_iff.mp h
    have hactive (p : BitVec 64) (hp : Active ⟨s.g_monitorMap, _⟩ p) : s.Active p :=
      ((active_iff s.g_monitorMap m' p).mp hp).elim (fun h => h ▸ ⟨m, hm⟩) id
    exact ⟨(Function.update_of_ne (hs.ne_null hm) ..).trans hs.null, hs.distinct.mono hactive,
      fun p hp => hs.found p (hactive p hp), hs.number⟩
  · cases h

theorem mapped_stop {s s' : TraceRegistry CPU_COUNT} {id : BitVec 32} {now : BitVec 64} (hs : Mapped s)
    (hsound : Sound long s (.stopTraceCpuLoad id now))
    (h : s.step long (.stopTraceCpuLoad id now) = some s') : Mapped s' := by
  obtain ⟨⟨ret, t⟩, hstop, rfl⟩ := Option.map_eq_some_iff.mp h
  by_cases hid : s.ActiveId id
  · obtain ⟨p, ⟨m, hp⟩, hnumber⟩ := hid
    rw [stop_active hs hp hnumber] at hstop
    cases hstop
    have hactive (q : BitVec 64) (hq : Active ⟨s.g_monitorMap, _⟩ q) : s.Active q :=
      ((@active_iff_of_not _ s p s.g_monitorMap (some (.stopped m)) nofun q).mp hq).2
    exact ⟨(Function.update_of_ne (hs.ne_null hp) ..).trans hs.null, hs.distinct.mono hactive,
      fun q hq => hs.found q (hactive q hq), hs.number⟩
  · rw [stopTraceCpuLoad, if_pos (hsound.resolve_right hid)] at hstop
    cases hstop
    exact hs

theorem good_iff_sound {s : TraceRegistry CPU_COUNT} {a : Action CPU_COUNT} (hs : Mapped s) :
    Good long s a ↔ Sound long s a := by
  cases a with
  | startTraceCpuLoad => exact good_iff_start long hs
  | sample p sample => exact iff_of_true (fun s' h => (mapped_sample long hs h).distinct) trivial
  | stopTraceCpuLoad => exact good_iff_stop long hs

theorem step_mapped {s s' : TraceRegistry CPU_COUNT} {a : Action CPU_COUNT} (hs : Mapped s)
    (hsound : Sound long s a) (h : s.step long a = some s') : Mapped s' := by
  cases a with
  | startTraceCpuLoad => exact mapped_start long hs hsound h
  | sample => exact mapped_sample long hs h
  | stopTraceCpuLoad => exact mapped_stop long hs hsound h

/-- Every run of the two calls and of the threads. -/
theorem stopped_once_iff_along (as : List (Action CPU_COUNT)) :
    Along (step long) (Good long) new as ↔ Along (step long) (Sound long) new as := by
  refine @along_congr _ _ (step long) (Good long) (Sound long) Mapped ?_ ?_ as _ mapped_new
  · exact fun hs hgood h => step_mapped long hs ((good_iff_sound long hs).mp hgood) h
  · exact fun hs => good_iff_sound long hs

/-- A number that was never given out. -/
theorem unknown_id_not_good : ¬ ∀ long (as : List (Action 1)), Along (step long) (Good long) new as := by
  intro h
  have hstop := (h .lp64 [.stopTraceCpuLoad 5 0]).1.2.2 fun ⟨p, hp, _⟩ => not_active_new p hp
  cases hstop

end TraceRegistry

end Hardcoder
