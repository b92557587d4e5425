import Hardcoder.ProcFileReader
import Hardcoder.Lib.Decimal
import Mathlib.Logic.Function.Basic

/-! `ThreadJiffiesMonitor` (procutil.h): samples of the jiffies of a thread and of the frequency
of its core, and the load that adds them up. -/

namespace Hardcoder
open Runs Strtol
set_option autoImplicit false

namespace ProcFileReader

/-- `update`, where it writes in the block only. -/
def updated (r : ProcFileReader) (io : Io) : Option ProcFileReader :=
  if (r.update io).2.all fun (ret : Int) => 0 ≤ ret ∧ ret < MAX_LEN then some (r.update io).1 else none

/-- What `update` gets from the file, if it gets to `read`. -/
def textRead (r : ProcFileReader) (io : Io) : Option (List UInt8) :=
  if (r.update io).2.isSome then io.read else none

end ProcFileReader

open ProcFileReader

variable {CPU_COUNT : Nat}

/-- A monitor that was started. -/
structure ThreadJiffiesMonitor (CPU_COUNT : Nat) where
  m_running : BitVec 32
  m_lastJiffies : BitVec 32
  m_startUnixTime : BitVec 64
  m_sumCpuLoad : BitVec 32
  m_ppCpuFfreqReader : Fin CPU_COUNT → ProcFileReader
  m_pStatReader : ProcFileReader
  m_linuxTid : BitVec 32
  m_sampleRateUS : BitVec 64

namespace ThreadJiffiesMonitor

def STAT_USER_JIFFIES_INDEX : Nat := 13
def STAT_SYS_JIFFIES_INDEX : Nat := 14

def cpuPath (i : Nat) : List UInt8 :=
  ascii "/sys/devices/system/cpu/cpu" ++ (decimal i ++ ascii "/cpufreq/scaling_cur_freq")

def statPath (linuxTid : BitVec 32) : List UInt8 :=
  ascii "/proc/self/task/" ++ (printed linuxTid.toInt ++ ascii "/stat")

variable (long : CLong)

/-- The sum of the two fields, in an `int`; `none` when it is not defined. -/
def jiffies (stat : ProcFileReader) : Option (BitVec 32) := do
  let user ← stat.getValue long STAT_USER_JIFFIES_INDEX
  let sys ← stat.getValue long STAT_SYS_JIFFIES_INDEX
  return BitVec.ofInt 32 (user + sys)

/-- The blocks that `new` finds on the heap. -/
structure Heap (CPU_COUNT : Nat) where
  stat : Nat → UInt8
  cpu : Fin CPU_COUNT → Nat → UInt8

/-- The result that is not 0, or the monitor; `now` is what `getMillisecond` returns. -/
def start (heap : Heap CPU_COUNT) (now : BitVec 64) (io : Io) (linuxTid : BitVec 32)
    (sampleRateMS : BitVec 64) : Option (Except Int (ThreadJiffiesMonitor CPU_COUNT)) := do
  if CPU_COUNT = 0 ∨ linuxTid = 0 then return .error (-1)
  let stat ← (ProcFileReader.new (some (statPath linuxTid)) heap.stat).updated io
  let lastJiffies ← jiffies long stat
  if lastJiffies.toInt < 0 then return .error (-2)
  return .ok {
    m_running := 1
    m_lastJiffies := lastJiffies
    m_startUnixTime := now
    m_sumCpuLoad := 0
    m_ppCpuFfreqReader := fun i => ProcFileReader.new (some (cpuPath i)) (heap.cpu i)
    m_pStatReader := stat
    m_linuxTid := linuxTid
    m_sampleRateUS := sampleRateMS * 1000 }

/-- `j` and `cpuId` of `run`, if they pass its check. -/
def position (CPU_COUNT : Nat) (stat : ProcFileReader) : Option (Option (BitVec 32 × Fin CPU_COUNT)) := do
  let j ← jiffies long stat
  let cpuId ← stat.getValue long 38
  if h : j.toInt < 0 ∨ cpuId < 0 ∨ CPU_COUNT ≤ cpuId then return none
  else return some (j, ⟨cpuId.toNat, by omega⟩)

def run (m : ThreadJiffiesMonitor CPU_COUNT) (stat freq : Io) :
    Option (Int × ThreadJiffiesMonitor CPU_COUNT) := do
  let statReader ← m.m_pStatReader.updated stat
  match ← position long CPU_COUNT statReader with
  | none => return (-1, { m with m_pStatReader := statReader })
  | some (j, cpuId) =>
    let freqReader ← (m.m_ppCpuFfreqReader cpuId).updated freq
    let freqHz ← freqReader.getValue long 0
    let load := BitVec.ofInt 32 (freqHz * (j.toInt - m.m_lastJiffies.toInt))
    return (0, { m with
      m_pStatReader := statReader
      m_ppCpuFfreqReader := Function.update m.m_ppCpuFfreqReader cpuId freqReader
      m_sumCpuLoad := m.m_sumCpuLoad + load
      m_lastJiffies := j })

/-- `runUnixTime` and `cpuLoad`, once the thread has ended. -/
def stop (m : ThreadJiffiesMonitor CPU_COUNT) (now : BitVec 64) : BitVec 64 × BitVec 64 :=
  (now - m.m_startUnixTime, m.m_sumCpuLoad.setWidth 64)

/-- What the two files are read as in one pass of the thread. -/
structure Sample where
  stat : Io
  freq : Io

/-- A pass of `monitorThread` while `m_running` is set. -/
def step (m : ThreadJiffiesMonitor CPU_COUNT) (s : Sample) : Option (ThreadJiffiesMonitor CPU_COUNT) :=
  if m.m_running = 0 then none else (m.run long s.stat s.freq).map (·.2)

/-! ### The exact load -/

/-- The number in the field of a text. -/
def numberAt (index : Nat) (text : List UInt8) : Option Int :=
  match field index text with
  | .found ptr => some (Strtol.number ptr)
  | _ => none

def jiffiesIn (text : List UInt8) : Option Int := do
  return (← numberAt STAT_USER_JIFFIES_INDEX text) + (← numberAt STAT_SYS_JIFFIES_INDEX text)

/-- The jiffies and the core that a stat file names. -/
def named (CPU_COUNT : Nat) (text : List UInt8) : Option (Int × Fin CPU_COUNT) := do
  let jiffies ← jiffiesIn text
  let cpu ← numberAt 38 text
  if h : 0 ≤ cpu ∧ cpu < CPU_COUNT then some (jiffies, ⟨cpu.toNat, by omega⟩) else none

/-- The frequency that the file of the core has. -/
def frequency (m : ThreadJiffiesMonitor CPU_COUNT) (cpu : Fin CPU_COUNT) (freq : Io) : Option Int := do
  numberAt 0 (← (m.m_ppCpuFfreqReader cpu).textRead freq)

/-- The jiffies and the frequency of a sample, if both files can be read. -/
def success (m : ThreadJiffiesMonitor CPU_COUNT) (s : Sample) : Option (Int × Int) := do
  let (jiffies, cpu) ← named CPU_COUNT (← m.m_pStatReader.textRead s.stat)
  (m.frequency cpu s.freq).map fun freq => (jiffies, freq)

/-- The successful samples of a run. -/
def successes : ThreadJiffiesMonitor CPU_COUNT → List Sample → List (Int × Int)
  | _, [] => []
  | m, s :: samples =>
    (m.success s).toList ++ (m.step long s).elim [] fun m => successes m samples

/-- Frequency times the jiffies since the sample before. -/
def exactLoad : Int → List (Int × Int) → Int
  | _, [] => 0
  | last, (jiffies, freq) :: samples => freq * (jiffies - last) + exactLoad jiffies samples

/-! ### When the load is exact -/

/-- No negative number, and none from 2^31 on. -/
def Fits (v : Option Int) : Prop := ∀ n ∈ v, 0 ≤ n ∧ n < 2 ^ 31

instance (v : Option Int) : Decidable (Fits v) :=
  inferInstanceAs (Decidable (∀ n ∈ v, 0 ≤ n ∧ n < 2 ^ 31))

structure InRange (text : List UInt8) : Prop where
  user : Fits (numberAt STAT_USER_JIFFIES_INDEX text)
  sys : Fits (numberAt STAT_SYS_JIFFIES_INDEX text)
  jiffies : Fits (jiffiesIn text)
  cpu : Fits (numberAt 38 text)

instance (text : List UInt8) : Decidable (InRange text) :=
  decidable_of_iff (Fits (numberAt STAT_USER_JIFFIES_INDEX text) ∧
    Fits (numberAt STAT_SYS_JIFFIES_INDEX text) ∧ Fits (jiffiesIn text) ∧ Fits (numberAt 38 text))
    ⟨fun ⟨huser, hsys, hjiffies, hcpu⟩ => ⟨huser, hsys, hjiffies, hcpu⟩,
      fun h => ⟨h.user, h.sys, h.jiffies, h.cpu⟩⟩

/-- Every access is in its block, jiffies and core are in range, and the frequency is readable
if the jiffies have moved. -/
structure Sound (m : ThreadJiffiesMonitor CPU_COUNT) (s : Sample) : Prop where
  defined : m.run long s.stat s.freq ≠ none
  inRange : ∀ text ∈ m.m_pStatReader.textRead s.stat, InRange text
  freq : ∀ text ∈ m.m_pStatReader.textRead s.stat, ∀ p ∈ named CPU_COUNT text,
    p.1 = m.m_lastJiffies.toInt ∨ m.frequency p.2 s.freq ≠ none ∧ Fits (m.frequency p.2 s.freq)

instance (m : ThreadJiffiesMonitor CPU_COUNT) (s : Sample) : Decidable (Sound long m s) :=
  decidable_of_iff (m.run long s.stat s.freq ≠ none ∧
      (∀ text ∈ m.m_pStatReader.textRead s.stat, InRange text) ∧
      ∀ text ∈ m.m_pStatReader.textRead s.stat, ∀ p ∈ named CPU_COUNT text,
        p.1 = m.m_lastJiffies.toInt ∨ m.frequency p.2 s.freq ≠ none ∧ Fits (m.frequency p.2 s.freq))
    ⟨fun ⟨hdefined, hrange, hfreq⟩ => ⟨hdefined, hrange, hfreq⟩,
      fun h => ⟨h.defined, h.inRange, h.freq⟩⟩

/-! ### What the buffer of a reader says -/

/-- A line with a field has every field before it. -/
theorem found_of_found {index d spaceCount : Nat} {text ptr : List UInt8} (hlt : spaceCount < index)
    (h : scan (index + d) spaceCount text = .found ptr) :
    ∃ ptr, scan index spaceCount text = .found ptr := by
  fun_induction scan (index + d) spaceCount text with
  | case1 => cases h
  | case2 => cases h
  | case3 spaceCount c text hc count hindex =>
    have hle : count ≤ index := by
      unfold count
      split <;> omega
    have hsame : count = index := by omega
    refine ⟨c :: text, ?_⟩
    rw [scan, if_neg hc]
    exact if_pos hsame
  | case4 spaceCount c text hc count hindex ih =>
    have hle : count ≤ index := by
      unfold count
      split <;> omega
    rw [scan, if_neg hc]
    by_cases hsame : count = index
    · exact ⟨c :: text, if_pos hsame⟩
    · obtain ⟨ptr, hptr⟩ := ih (Nat.lt_of_le_of_ne hle hsame) h
      exact ⟨ptr, (if_neg hsame).trans hptr⟩

theorem numberAt_of_numberAt {index later : Nat} {text : List UInt8} (hpos : 0 < index)
    (hle : index ≤ later) {v : Int} (h : numberAt later text = some v) :
    ∃ w, numberAt index text = some w := by
  obtain ⟨d, rfl⟩ := Nat.exists_eq_add_of_le hle
  unfold numberAt at h
  split at h
  · rename_i ptr hptr
    obtain ⟨ptr', hptr'⟩ := found_of_found hpos hptr
    exact ⟨Strtol.number ptr', by rw [numberAt, field, hptr']⟩
  · cases h

theorem fieldValue_of_fits {index : Nat} {text : List UInt8} (h : Fits (numberAt index text)) :
    fieldValue long index text = (numberAt index text).getD (-1) := by
  unfold numberAt at h ⊢
  unfold fieldValue
  cases hfield : field index text with
  | found ptr =>
    rw [hfield] at h
    obtain ⟨hlow, hhigh⟩ := h _ rfl
    have hint : -2 ^ 31 ≤ Strtol.number ptr := by omega
    dsimp only
    rw [(toInt_atoi_iff long ptr hint).mpr hhigh, Option.getD_some]
  | absent => rfl
  | overrun => rfl

variable {long}

theorem toInt_of_fits {v : Int} (h : 0 ≤ v ∧ v < 2 ^ 31) : (BitVec.ofInt 32 v).toInt = v :=
  BitVec.toInt_ofInt_eq_self (by decide) (by omega) h.2

/-- A reader whose block starts with the text that was read last. -/
def Reader (r : ProcFileReader) (text : Option (List UInt8)) : Prop :=
  r.m_szPath ≠ none ∧ ∃ failed, Calls.Terminated ⟨r, failed, text⟩

theorem reader_new (path : List UInt8) (hpath : path ≠ []) (heap : Nat → UInt8) :
    Reader (ProcFileReader.new (some path) heap) none := by
  obtain ⟨c, path, rfl⟩ := List.exists_cons_of_ne_nil hpath
  exact ⟨Option.some_ne_none _, false, Calls.terminated_new _ heap⟩

theorem Reader.line {r : ProcFileReader} {text : List UInt8} (h : Reader r (some text)) :
    ∃ line, r.line = some line ∧ text ++ [0] <+: line := by
  obtain ⟨hpath, failed, hterminated⟩ := h
  obtain ⟨line, hline, -, hprefix⟩ := hterminated.line hpath
  exact ⟨line, hline, hprefix text rfl⟩

theorem update_m_szPath (r : ProcFileReader) (io : Io) : (r.update io).1.m_szPath = r.m_szPath := by
  unfold ProcFileReader.update
  split
  · exact apply_ite (fun p : ProcFileReader × Option Int => p.1.m_szPath) _ _ _ |>.trans (ite_self _)
  · rfl

theorem Reader.updated {r r' : ProcFileReader} {text : Option (List UInt8)} {io : Io}
    (h : Reader r text) (hupdated : r.updated io = some r') : Reader r' ((r.textRead io).or text) := by
  obtain ⟨hpath, failed, hterminated⟩ := h
  unfold ProcFileReader.updated at hupdated
  split at hupdated
  · rename_i hall
    obtain rfl := Option.some.inj hupdated
    have hgood : Calls.Good .lp64 ⟨r, failed, text⟩ (.update io) := by
      intro ret hret
      dsimp only at hret
      rw [hret] at hall
      exact of_decide_eq_true hall
    have hstep : Calls.step ⟨r, failed, text⟩ (.update io) = some ⟨(r.update io).1,
        (r.update io).2.all fun ret => ret ≤ 0,
        if (r.update io).2.isSome then io.read.or text else text⟩ := rfl
    have hsound := (Calls.update_iff .lp64 hterminated).mp hgood
    have hafter := Calls.step_update hterminated hsound hstep
    have htext : (r.textRead io).or text = if (r.update io).2.isSome then io.read.or text else text := by
      unfold textRead
      split
      · rfl
      · exact Option.none_or
    rw [htext]
    exact ⟨by rw [update_m_szPath]; exact hpath, _, hafter⟩
  · cases hupdated

theorem getValue_of_fits {r : ProcFileReader} {text : List UInt8} (h : Reader r (some text))
    {index : Nat} (hfits : Fits (numberAt index text)) :
    r.getValue long index = some ((numberAt index text).getD (-1)) := by
  obtain ⟨line, hline, hprefix⟩ := h.line
  rw [getValue_of_text long hline hprefix, fieldValue_of_fits long hfits]

theorem jiffies_of_some {r : ProcFileReader} {user sys : Int}
    (huser : r.getValue long STAT_USER_JIFFIES_INDEX = some user)
    (hsys : r.getValue long STAT_SYS_JIFFIES_INDEX = some sys) :
    jiffies long r = some (BitVec.ofInt 32 (user + sys)) := by
  rw [jiffies, huser, hsys]
  rfl

theorem position_of_some {r : ProcFileReader} {j : BitVec 32} {cpuId : Int}
    (hj : jiffies long r = some j) (hcpu : r.getValue long 38 = some cpuId) :
    position long CPU_COUNT r =
      if h : j.toInt < 0 ∨ cpuId < 0 ∨ CPU_COUNT ≤ cpuId then some none
      else some (some (j, ⟨cpuId.toNat, by omega⟩)) := by
  rw [position, hj, hcpu]
  rfl

theorem jiffies_of_text {r : ProcFileReader} {text : List UInt8} (h : Reader r (some text))
    (hrange : InRange text) {first : Int} (hfirst : jiffiesIn text = some first) :
    jiffies long r = some (BitVec.ofInt 32 first) := by
  obtain ⟨user, huser, hfirst⟩ := Option.bind_eq_some_iff.mp hfirst
  obtain ⟨sys, hsys, hfirst⟩ := Option.bind_eq_some_iff.mp hfirst
  obtain rfl := Option.some.inj hfirst
  have hj := jiffies_of_some (@getValue_of_fits long _ _ h _ hrange.user) (getValue_of_fits h hrange.sys)
  rwa [huser, hsys, Option.getD_some, Option.getD_some] at hj

/-- The check of `run` lets just those texts pass that name a core. -/
theorem position_of_text {r : ProcFileReader} {text : List UInt8} (h : Reader r (some text))
    (hrange : InRange text) :
    position long CPU_COUNT r =
      some ((named CPU_COUNT text).map fun p => (BitVec.ofInt 32 p.1, p.2)) := by
  have hcpuId := @getValue_of_fits long _ _ h _ hrange.cpu
  cases hcpu : numberAt 38 text with
  | none =>
    have hj := jiffies_of_some (@getValue_of_fits long _ _ h _ hrange.user) (getValue_of_fits h hrange.sys)
    have hnamed : named CPU_COUNT text = none := by simp [named, hcpu]
    have hcheck : ((-1 : Int) < 0) := by decide
    rw [position_of_some hj hcpuId, hcpu, hnamed, dif_pos (.inr (.inl hcheck))]
    rfl
  | some cpu =>
    obtain ⟨user, huser⟩ :=
      numberAt_of_numberAt (by decide : 0 < STAT_USER_JIFFIES_INDEX) (by decide) hcpu
    obtain ⟨sys, hsys⟩ :=
      numberAt_of_numberAt (by decide : 0 < STAT_SYS_JIFFIES_INDEX) (by decide) hcpu
    have hjiffies : jiffiesIn text = some (user + sys) := by simp [jiffiesIn, huser, hsys]
    have hsum := hrange.jiffies _ hjiffies
    have hint := toInt_of_fits hsum
    obtain ⟨hpos, -⟩ := hrange.cpu _ hcpu
    rw [position_of_some (jiffies_of_text h hrange hjiffies) hcpuId]
    simp only [hcpu, Option.getD_some, hint]
    by_cases hlt : cpu < CPU_COUNT
    · have hcheck : ¬ (user + sys < 0 ∨ cpu < 0 ∨ CPU_COUNT ≤ cpu) := by omega
      have hnamed : named CPU_COUNT text = some (user + sys, ⟨cpu.toNat, by omega⟩) := by
        simp [named, hjiffies, hcpu, hpos, hlt]
      rw [dif_neg hcheck, hnamed, Option.map_some]
    · have hcheck : user + sys < 0 ∨ cpu < 0 ∨ CPU_COUNT ≤ cpu := by omega
      have hnamed : named CPU_COUNT text = none := by simp [named, hjiffies, hcpu, hlt]
      rw [dif_pos hcheck, hnamed, Option.map_none]

theorem jiffiesIn_of_named {text : List UInt8} {p : Int × Fin CPU_COUNT}
    (h : named CPU_COUNT text = some p) : jiffiesIn text = some p.1 := by
  obtain ⟨j, hj, h⟩ := Option.bind_eq_some_iff.mp h
  obtain ⟨n, -, h⟩ := Option.bind_eq_some_iff.mp h
  split at h
  · rw [hj, ← Option.some.inj h]
  · cases h

theorem toInt_of_named {text : List UInt8} (hrange : InRange text) {jiffies : Int} {cpu : Fin CPU_COUNT}
    (h : named CPU_COUNT text = some (jiffies, cpu)) : (BitVec.ofInt 32 jiffies).toInt = jiffies :=
  toInt_of_fits (hrange.jiffies jiffies (jiffiesIn_of_named h))

/-! ### One sample -/

theorem getValue_of_frequency {m : ThreadJiffiesMonitor CPU_COUNT} {cpu : Fin CPU_COUNT} {freq : Io}
    {text : Option (List UInt8)} (h : Reader (m.m_ppCpuFfreqReader cpu) text) {r : ProcFileReader}
    (hr : (m.m_ppCpuFfreqReader cpu).updated freq = some r) {f : Int}
    (hf : m.frequency cpu freq = some f) (hfits : Fits (some f)) : r.getValue long 0 = some f := by
  obtain ⟨contents, hread, hnumber⟩ := Option.bind_eq_some_iff.mp hf
  have hafter := h.updated hr
  rw [hread, Option.some_or] at hafter
  rw [getValue_of_fits hafter (hnumber ▸ hfits), hnumber, Option.getD_some]

/-- The monitor has the jiffies of the last successful sample, and the load as far as 32 bits
hold it. -/
structure Tracks (m : ThreadJiffiesMonitor CPU_COUNT) (last total : Int) : Prop where
  running : m.m_running ≠ 0
  lastJiffies : m.m_lastJiffies.toInt = last
  load : m.m_sumCpuLoad = BitVec.ofInt 32 total
  stat : ∃ text, Reader m.m_pStatReader (some text) ∧ InRange text ∧
    ∀ p ∈ named CPU_COUNT text, p.1 = last
  freq : ∀ cpu, ∃ text, Reader (m.m_ppCpuFfreqReader cpu) text

/-- The jiffies and the load behind a sample. -/
def counted (last total : Int) : Option (Int × Int) → Int × Int
  | none => (last, total)
  | some (jiffies, freq) => (jiffies, total + freq * (jiffies - last))

section Step
variable {m : ThreadJiffiesMonitor CPU_COUNT} {s : Sample} {last total : Int}

/-- What `run` adds when it gets to the frequency. -/
theorem added (hm : Tracks m last total) (hsound : Sound long m s) {text : List UInt8}
    {jiffies : Int} {cpu : Fin CPU_COUNT} (hnamed : named CPU_COUNT text = some (jiffies, cpu))
    (hread : m.m_pStatReader.textRead s.stat = some text ∨
      m.m_pStatReader.textRead s.stat = none ∧ jiffies = last)
    {r : ProcFileReader} (hr : (m.m_ppCpuFfreqReader cpu).updated s.freq = some r) {freqHz : Int}
    (hvalue : r.getValue long 0 = some freqHz) :
    counted last total (m.success s) = (jiffies, total + freqHz * (jiffies - last)) := by
  have hstill (hlast : jiffies = last) (f : Int) : total + f * (jiffies - last) = total := by
    rw [hlast, Int.sub_self, Int.mul_zero, Int.add_zero]
  rcases hread with hread | ⟨hread, hlast⟩
  · have hsuccess : m.success s = (m.frequency cpu s.freq).map fun f => (jiffies, f) := by
      simp only [success, hread, Option.bind_eq_bind, Option.bind_some, hnamed]
    rw [hsuccess]
    rcases hsound.freq text hread _ hnamed with hlast | ⟨hreadable, hfits⟩
    · have hlast : jiffies = last := hlast.trans hm.lastJiffies
      cases m.frequency cpu s.freq with
      | none => rw [hstill hlast, hlast]; rfl
      | some f => rw [hstill hlast, Option.map_some, counted, hstill hlast]
    · obtain ⟨f, hf⟩ := Option.ne_none_iff_exists'.mp hreadable
      obtain ⟨text, hreader⟩ := hm.freq cpu
      rw [getValue_of_frequency hreader hr hf (hf ▸ hfits)] at hvalue
      obtain rfl := Option.some.inj hvalue
      rw [hf]
      rfl
  · have hsuccess : m.success s = none := by
      simp only [success, hread]
      rfl
    rw [hsuccess, hstill hlast, hlast]
    rfl

theorem step_tracks (hm : Tracks m last total) (hsound : Sound long m s) :
    ∃ m', m.step long s = some m' ∧
      Tracks m' (counted last total (m.success s)).1 (counted last total (m.success s)).2 := by
  have hstep : m.step long s = (m.run long s.stat s.freq).map (·.2) := if_neg hm.running
  obtain ⟨⟨ret, m'⟩, hrun⟩ := Option.ne_none_iff_exists'.mp hsound.defined
  refine ⟨m', by rw [hstep, hrun, Option.map_some], ?_⟩
  obtain ⟨statReader, hstat, hrun⟩ := Option.bind_eq_some_iff.mp hrun
  obtain ⟨old, hreader, holdRange, holdLast⟩ := hm.stat
  have hafter := hreader.updated hstat
  obtain ⟨text, htext, hrange, hread⟩ : ∃ text,
      (m.m_pStatReader.textRead s.stat).or (some old) = some text ∧ InRange text ∧
        (m.m_pStatReader.textRead s.stat = some text ∨
          m.m_pStatReader.textRead s.stat = none ∧ text = old) := by
    cases hread : m.m_pStatReader.textRead s.stat with
    | none => exact ⟨old, rfl, holdRange, .inr ⟨rfl, rfl⟩⟩
    | some text => exact ⟨text, rfl, hsound.inRange text hread, .inl rfl⟩
  rw [htext] at hafter
  rw [@position_of_text CPU_COUNT long _ _ hafter hrange] at hrun
  cases hnamed : named CPU_COUNT text with
  | none =>
    rw [hnamed] at hrun
    cases hrun
    have hsuccess : m.success s = none := by
      rcases hread with hread | ⟨hread, -⟩
      · simp only [success, hread, Option.bind_eq_bind, Option.bind_some, hnamed]
        rfl
      · simp only [success, hread]
        rfl
    rw [hsuccess]
    exact ⟨hm.running, hm.lastJiffies, hm.load,
      ⟨text, hafter, hrange, fun p hp => by rw [hnamed] at hp; cases hp⟩, hm.freq⟩
  | some p =>
    obtain ⟨jiffies, cpu⟩ := p
    rw [hnamed, Option.map_some, Option.bind_eq_bind, Option.bind_some] at hrun
    obtain ⟨r, hr, hrun⟩ := Option.bind_eq_some_iff.mp hrun
    obtain ⟨freqHz, hvalue, hrun⟩ := Option.bind_eq_some_iff.mp hrun
    cases hrun
    have hread : m.m_pStatReader.textRead s.stat = some text ∨
        m.m_pStatReader.textRead s.stat = none ∧ jiffies = last :=
      hread.imp_right fun h => ⟨h.1, holdLast _ (h.2 ▸ hnamed)⟩
    have hint := toInt_of_named hrange hnamed
    rw [added hm hsound hnamed hread hr hvalue]
    refine ⟨hm.running, hint, ?_, ⟨text, hafter, hrange, fun p hp => ?_⟩, fun i => ?_⟩
    · dsimp only
      rw [hint, hm.lastJiffies, hm.load, BitVec.ofInt_add]
    · rw [hnamed] at hp
      rw [← Option.some.inj hp]
    · by_cases hi : i = cpu
      · subst hi
        obtain ⟨old, hreader⟩ := hm.freq i
        dsimp only
        rw [Function.update_self]
        exact ⟨_, hreader.updated hr⟩
      · dsimp only
        rw [Function.update_of_ne hi]
        exact hm.freq i

end Step

/-! ### From start to stop -/

theorem run_tracks {samples : List Sample} : ∀ {m : ThreadJiffiesMonitor CPU_COUNT} {last total : Int},
    Tracks m last total → Along (step long) (Sound long) m samples →
    ∃ m', Runs.run (step long) m samples = some m' ∧
      m'.m_sumCpuLoad = BitVec.ofInt 32 (total + exactLoad last (successes long m samples)) := by
  induction samples with
  | nil =>
    intro m last total hm _
    exact ⟨m, rfl, by rw [successes, exactLoad, Int.add_zero, hm.load]⟩
  | cons s samples ih =>
    intro m last total hm hsound
    obtain ⟨t, ht, htracks⟩ := step_tracks hm hsound.1
    obtain ⟨m', hrun, hload⟩ := ih htracks (hsound.2 t ht)
    refine ⟨m', run_cons.mpr ⟨t, ht, hrun⟩, ?_⟩
    rw [hload, successes, ht]
    cases m.success s with
    | none => rfl
    | some p => rw [counted, Int.add_assoc]; rfl

variable {heap : Heap CPU_COUNT} {now : BitVec 64} {io : Io} {linuxTid : BitVec 32}
  {sampleRateMS : BitVec 64} {m : ThreadJiffiesMonitor CPU_COUNT}

theorem start_tracks (hstart : start long heap now io linuxTid sampleRateMS = some (.ok m))
    {text : List UInt8}
    (hread : (ProcFileReader.new (some (statPath linuxTid)) heap.stat).textRead io = some text)
    (hrange : InRange text) {first : Int} (hfirst : jiffiesIn text = some first) :
    Tracks m first 0 := by
  unfold start at hstart
  split at hstart
  · cases hstart
  obtain ⟨stat, hstat, hstart⟩ := Option.bind_eq_some_iff.mp hstart
  obtain ⟨lastJiffies, hlast, hstart⟩ := Option.bind_eq_some_iff.mp hstart
  split at hstart
  · cases hstart
  cases hstart
  have hpath : statPath linuxTid ≠ [] := by
    unfold statPath
    exact List.append_ne_nil_of_right_ne_nil _ (List.append_ne_nil_of_left_ne_nil (printed_ne_nil _) _)
  have hreader := (reader_new _ hpath heap.stat).updated hstat
  rw [hread, Option.some_or] at hreader
  rw [jiffies_of_text hreader hrange hfirst] at hlast
  obtain rfl := Option.some.inj hlast
  have hrunning : (1 : BitVec 32) ≠ 0 := by decide
  refine ⟨hrunning, toInt_of_fits (hrange.jiffies _ hfirst), rfl,
    ⟨text, hreader, hrange, fun p hp => ?_⟩, fun i => ⟨none, ?_⟩⟩
  · exact Option.some.inj ((jiffiesIn_of_named hp).symm.trans hfirst)
  · refine reader_new _ ?_ _
    unfold cpuPath
    exact List.append_ne_nil_of_right_ne_nil _
      (List.append_ne_nil_of_left_ne_nil (numeral_decimal _).nonempty _)

/-- Widened again, the load is exact just when 32 bits hold it. -/
theorem stop_eq_iff (hstart : start long heap now io linuxTid sampleRateMS = some (.ok m))
    {text : List UInt8}
    (hread : (ProcFileReader.new (some (statPath linuxTid)) heap.stat).textRead io = some text)
    (hrange : InRange text) {first : Int} (hfirst : jiffiesIn text = some first)
    {samples : List Sample} (hsound : Along (step long) (Sound long) m samples) (stopped : BitVec 64) :
    ∃ m', Runs.run (step long) m samples = some m' ∧
      ((m'.stop stopped).2.toNat = exactLoad first (successes long m samples) ↔
        0 ≤ exactLoad first (successes long m samples) ∧
          exactLoad first (successes long m samples) < 2 ^ 32) := by
  obtain ⟨m', hrun, hload⟩ := run_tracks (start_tracks hstart hread hrange hfirst) hsound
  refine ⟨m', hrun, ?_⟩
  rw [Int.zero_add] at hload
  generalize exactLoad first (successes long m samples) = load at hload
  have hnat : ((m'.stop stopped).2.toNat : Int) = load % 2 ^ 32 := by
    have hwide : m'.m_sumCpuLoad.toNat < 2 ^ 64 := Nat.lt_of_lt_of_le m'.m_sumCpuLoad.isLt (by decide)
    have hnonneg := Int.emod_nonneg load (by decide : (2 : Int) ^ 32 ≠ 0)
    rw [stop, BitVec.toNat_setWidth, Nat.mod_eq_of_lt hwide, hload, BitVec.toNat_ofInt]
    exact Int.toNat_of_nonneg hnonneg
  rw [hnat]
  omega

/-! ### A thread of one core -/

/-- Fields of one digit; `digit` is the one for user jiffies. -/
def statText (digit : UInt8) : List UInt8 :=
  [32].intercalate (List.replicate 13 [48] ++ [digit] :: List.replicate 25 [48])

/-- A file that can be read. -/
def contents (text : List UInt8) (h : text.length ≤ MAX_LEN) : Io :=
  ⟨3, some text, fun _ h' => Option.some.inj h' ▸ h⟩

def noHeap : Heap 1 := ⟨fun _ => 0, fun _ _ => 0⟩

def monitor : ThreadJiffiesMonitor 1 where
  m_running := 1
  m_lastJiffies := 0
  m_startUnixTime := 0
  m_sumCpuLoad := 0
  m_ppCpuFfreqReader := fun i => ProcFileReader.new (some (cpuPath i)) (noHeap.cpu i)
  m_pStatReader :=
    ((ProcFileReader.new (some (statPath 7)) noHeap.stat).update (contents (statText 48) (by decide))).1
  m_linuxTid := 7
  m_sampleRateUS := 15000

theorem start_monitor :
    start .lp64 noHeap 0 (contents (statText 48) (by decide)) 7 15 = some (.ok monitor) := rfl

/-- The frequency cannot be read when the jiffies have moved. -/
theorem not_exact : ¬ ∀ (heap : Heap 1) now io linuxTid sampleRateMS m text first samples m' stopped,
    start .lp64 heap now io linuxTid sampleRateMS = some (.ok m) →
    (ProcFileReader.new (some (statPath linuxTid)) heap.stat).textRead io = some text →
    jiffiesIn text = some first → Runs.run (step .lp64) m samples = some m' →
    (m'.stop stopped).2.toNat = exactLoad first (successes .lp64 m samples) := by
  intro h
  let samples : List Sample := [⟨contents (statText 49) (by decide), contents [] (by decide)⟩]
  have hload : (Runs.run (step .lp64) monitor samples).map (fun m' => (m'.stop 0).2.toNat) =
      some 4294967295 := by decide +kernel
  have hexact : exactLoad 0 (successes .lp64 monitor samples) = 0 := by decide +kernel
  obtain ⟨m', hrun, hstop⟩ := Option.map_eq_some_iff.mp hload
  have hclaim := h noHeap 0 _ 7 15 monitor (statText 48) 0 samples m' 0 start_monitor (by decide +kernel)
    (by decide +kernel) hrun
  rw [hexact, hstop] at hclaim
  exact absurd hclaim (by decide)

/-- A jiffy at the frequency 5, none while the frequency cannot be read, and two at 2. -/
def exampleSamples : List Sample :=
  [⟨contents (statText 49) (by decide), contents [53, 10] (by decide)⟩,
    ⟨contents (statText 49) (by decide), contents [] (by decide)⟩,
    ⟨contents (statText 51) (by decide), contents [50, 10] (by decide)⟩]

theorem stop_eq_iff_three : ∃ m', Runs.run (step .lp64) monitor exampleSamples = some m' ∧
    (m'.stop 0).2.toNat = (9 : Int) := by
  have hexact : exactLoad 0 (successes .lp64 monitor exampleSamples) = 9 := by decide +kernel
  have hstat : (ProcFileReader.new (some (statPath 7)) noHeap.stat).textRead
      (contents (statText 48) (by decide)) = some (statText 48) := by decide +kernel
  have hsound : check (step .lp64) (fun m s => decide (Sound .lp64 m s)) monitor exampleSamples = true := by
    decide +kernel
  obtain ⟨m', hrun, hiff⟩ := @stop_eq_iff 1 .lp64 noHeap 0 _ 7 15 monitor start_monitor _ hstat
    (by decide) 0 (by decide) exampleSamples (along_of_check hsound) 0
  rw [hexact] at hiff
  exact ⟨m', hrun, hiff.mpr (by decide)⟩

end ThreadJiffiesMonitor

end Hardcoder
