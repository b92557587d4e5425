import Hardcoder.Lib.Runs
import Hardcoder.Lib.Strtol

/-! `ProcFileReader` (procutil.h): a line buffer that is read again and again from a file
under /proc, and the field that `getValue` finds in it. -/

namespace Hardcoder
open Runs Strtol
set_option autoImplicit false

/-- `m_szPath` is `none` for NULL, `line` has the whole block that `line` points to. -/
structure ProcFileReader where
  m_szPath : Option (List UInt8)
  fd : Int
  line : Option (List UInt8)

namespace ProcFileReader

def MAX_LEN : Nat := 4096

/-- A block of `MAX_LEN` bytes as the heap held them. -/
def newLine (heap : Nat → UInt8) : List UInt8 := (List.range MAX_LEN).map heap

/-- The constructor; `path` is NULL or a string. -/
def new (path : Option (List UInt8)) (heap : Nat → UInt8) : ProcFileReader :=
  match path with
  | none | some [] => ⟨none, 0, none⟩
  | some path => ⟨some path, 0, some (newLine heap)⟩

/-- What `open` returns, if it is called, and `read`: -1 is `none`, else the bytes that it has
put into the buffer. -/
structure Io where
  opened : Int
  read : Option (List UInt8)
  read_le : ∀ bs, read = some bs → bs.length ≤ MAX_LEN

def Io.ret (io : Io) : Int := io.read.elim (-1) fun bs => bs.length

/-- `line[ret] = '\0'`, as far as it is in the block -/
def terminate (line : List UInt8) (ret : Int) : List UInt8 :=
  if ret < 0 then line else line.set ret.toNat 0

/-- The reader afterwards, and what `read` returned if it was called. -/
def update (r : ProcFileReader) (io : Io) : ProcFileReader × Option Int :=
  match r.m_szPath, r.line with
  | some _, some line =>
    let fd := if r.fd = 0 then io.opened else r.fd
    if fd < 0 then ({ r with fd := 0 }, none)
    else
      let line := (io.read.getD []) ++ line.drop (io.read.getD []).length
      ({ r with fd := if io.ret ≤ 0 then 0 else fd, line := some (terminate line io.ret) }, some io.ret)
  | _, _ => (r, none)

/-- Where the loop of `getValue` stops. -/
inductive Scan where
  /-- `atoi(ptr)`, the rest of the block being what `ptr` points to -/
  | found (ptr : List UInt8)
  | absent
  /-- behind the block -/
  | overrun
deriving DecidableEq, Repr

def scan (index : Nat) : Nat → List UInt8 → Scan
  | _, [] => .overrun
  | spaceCount, c :: ptr =>
    if c = 0 then .absent
    else
      let spaceCount := if c = 32 then spaceCount + 1 else spaceCount
      if spaceCount = index then .found (c :: ptr) else scan index spaceCount ptr

/-- What `atoi` does not read as a part of the number. -/
def behindNumber (text : List UInt8) : List UInt8 :=
  match text.dropWhile isspace with
  | 45 :: text => text.dropWhile isdigit
  | 43 :: text => text.dropWhile isdigit
  | text => text.dropWhile isdigit

variable (long : CLong)

/-- `none` when it reads behind the block, or from a null `line`. -/
def getValue (r : ProcFileReader) (index : Nat) : Option Int :=
  match r.line with
  | none => none
  | some line =>
    match scan index 0 line with
    | .found ptr => if behindNumber ptr = [] then none else some (atoi long ptr).toInt
    | .absent => some (-1)
    | .overrun => none

/-! ### Fields of a text -/

/-- The field of a text that ends in the block. -/
def field (index : Nat) (text : List UInt8) : Scan := scan index 0 (text ++ [0])

theorem scan_append {index spaceCount : Nat} {text : List UInt8} (rest : List UInt8)
    (h : scan index spaceCount text ≠ .overrun) :
    scan index spaceCount (text ++ rest) =
      match scan index spaceCount text with
      | .found ptr => .found (ptr ++ rest)
      | .absent => .absent
      | .overrun => .overrun := by
  fun_induction scan index spaceCount text with
  | case1 => exact absurd rfl h
  | case2 spaceCount ptr => rfl
  | case3 spaceCount c ptr hc count hindex =>
    rw [List.cons_append, scan, if_neg hc]
    exact if_pos hindex
  | case4 spaceCount c ptr hc count hindex ih =>
    rw [List.cons_append, scan, if_neg hc, ← ih h]
    exact if_neg hindex

theorem scan_terminated (index spaceCount : Nat) (text : List UInt8) :
    scan index spaceCount (text ++ [0]) ≠ .overrun := by
  fun_induction scan index spaceCount text with
  | case1 => exact Scan.noConfusion
  | case2 => exact Scan.noConfusion
  | case3 spaceCount c text hc count hindex =>
    rw [List.cons_append, scan, if_neg hc]
    intro h
    rw [if_pos hindex] at h
    cases h
  | case4 spaceCount c text hc count hindex ih =>
    rw [List.cons_append, scan, if_neg hc]
    intro h
    rw [if_neg hindex] at h
    exact ih h

/-- `ptr` is the end of what was scanned. -/
theorem suffix_of_found {index spaceCount : Nat} {text ptr : List UInt8}
    (h : scan index spaceCount text = .found ptr) : ptr ≠ [] ∧ ptr <:+ text := by
  fun_induction scan index spaceCount text with
  | case1 => cases h
  | case2 => cases h
  | case3 spaceCount c text hc count hindex =>
    obtain rfl := Scan.found.inj h
    exact ⟨List.cons_ne_nil c text, List.suffix_rfl⟩
  | case4 spaceCount c text hc count hindex ih =>
    exact ⟨(ih h).1, (ih h).2.trans (List.suffix_cons c text)⟩

theorem null_mem_of_found {index spaceCount : Nat} {text ptr : List UInt8}
    (h : scan index spaceCount (text ++ [0]) = .found ptr) : (0 : UInt8) ∈ ptr := by
  obtain ⟨hne, front, hptr⟩ := suffix_of_found h
  have hlast : (front ++ ptr).getLast? = some 0 := by rw [hptr, List.getLast?_concat]
  rw [List.getLast?_append, Option.or_eq_some_iff, List.getLast?_eq_none_iff] at hlast
  exact List.mem_of_getLast? (hlast.resolve_right fun h => hne h.1)

/-- A number ends at the null byte at the latest. -/
theorem behindNumber_ne_nil {text : List UInt8} (h : (0 : UInt8) ∈ text) : behindNumber text ≠ [] := by
  have hspace := mem_dropWhile (by decide : isspace 0 = false) h
  unfold behindNumber
  split
  · rename_i rest heq
    rw [heq] at hspace
    have hrest : (0 : UInt8) ∈ rest := (List.mem_cons.mp hspace).resolve_left (by decide)
    exact List.ne_nil_of_mem (mem_dropWhile (by decide) hrest)
  · rename_i rest heq
    rw [heq] at hspace
    have hrest : (0 : UInt8) ∈ rest := (List.mem_cons.mp hspace).resolve_left (by decide)
    exact List.ne_nil_of_mem (mem_dropWhile (by decide) hrest)
  · exact List.ne_nil_of_mem (mem_dropWhile (by decide) hspace)

/-- What `getValue` makes of a text that was read. -/
def fieldValue (index : Nat) (text : List UInt8) : Int :=
  match field index text with
  | .found ptr => (atoi long ptr).toInt
  | _ => -1

/-- The block starts with the text. -/
theorem getValue_of_text {r : ProcFileReader} {line text : List UInt8} (hline : r.line = some line)
    (htext : text ++ [0] <+: line) (index : Nat) :
    r.getValue long index = some (fieldValue long index text) := by
  obtain ⟨rest, rfl⟩ := htext
  have happend := scan_append rest (scan_terminated index 0 text)
  unfold getValue fieldValue field
  rw [hline]
  dsimp only
  rw [happend]
  cases hscan : scan index 0 (text ++ [0]) with
  | absent => rfl
  | overrun => exact absurd hscan (scan_terminated index 0 text)
  | found ptr =>
    have hnull := null_mem_of_found hscan
    have hends := behindNumber_ne_nil (List.mem_append_left rest hnull)
    dsimp only
    rw [if_neg hends, atoi, strtol, number_append (by decide : stops 0 = true) hnull]
    rfl

/-! ### Calls of one reader -/

/-- `update` gets to `read`. -/
def Reads (r : ProcFileReader) (io : Io) : Prop :=
  r.m_szPath ≠ none ∧ 0 ≤ if r.fd = 0 then io.opened else r.fd

theorem update_of_not_reads {r : ProcFileReader} {io : Io} (h : ¬ r.Reads io) :
    ∃ fd, r.update io = ({ r with fd := fd }, none) := by
  obtain ⟨m_szPath, fd, line⟩ := r
  unfold update
  split
  · rename_i hpath hline
    have hneg : (if fd = 0 then io.opened else fd) < 0 := by
      by_contra hpos
      exact h ⟨by rw [hpath]; exact Option.some_ne_none _, Int.not_lt.mp hpos⟩
    exact ⟨0, if_pos hneg⟩
  · exact ⟨fd, rfl⟩

theorem update_of_reads {r : ProcFileReader} {io : Io} (h : r.Reads io) {line : List UInt8}
    (hline : r.line = some line) :
    ∃ fd, r.update io = ({ r with
      fd := fd
      line := some (terminate ((io.read.getD []) ++ line.drop (io.read.getD []).length) io.ret) },
      some io.ret) := by
  obtain ⟨m_szPath, fd, block⟩ := r
  obtain ⟨path, rfl⟩ := Option.ne_none_iff_exists'.mp h.1
  obtain rfl := hline
  exact ⟨_, if_neg (Int.not_lt.mpr h.2)⟩

/-- `failed` is the outcome of the last `update`, `text` what the last `read` has put into the
buffer. -/
structure Calls where
  reader : ProcFileReader
  failed : Bool
  text : Option (List UInt8)

inductive Action where
  | update (io : Io)
  | getValue (index : Nat)

namespace Calls

def new (path : Option (List UInt8)) (heap : Nat → UInt8) : Calls :=
  ⟨ProcFileReader.new path heap, false, none⟩

def step (s : Calls) : Action → Option Calls
  | .update io =>
    let (r, ret) := s.reader.update io
    some ⟨r, ret.all fun ret => ret ≤ 0, if ret.isSome then io.read.or s.text else s.text⟩
  | .getValue _ => some s

/-- The block, once it starts with a text that was read, ends it. -/
structure Terminated (s : Calls) : Prop where
  null : s.reader.m_szPath = none → s.reader.line = none ∧ s.text = none
  line : s.reader.m_szPath ≠ none → ∃ line, s.reader.line = some line ∧ line.length = MAX_LEN ∧
    ∀ bs, s.text = some bs → bs ++ [0] <+: line

theorem terminated_new (path : Option (List UInt8)) (heap : Nat → UInt8) :
    Terminated (new path heap) := by
  have hlength : (newLine heap).length = MAX_LEN := by
    rw [newLine, List.length_map, List.length_range]
  match path with
  | none => exact ⟨fun _ => ⟨rfl, rfl⟩, fun h => absurd rfl h⟩
  | some [] => exact ⟨fun _ => ⟨rfl, rfl⟩, fun h => absurd rfl h⟩
  | some (c :: path) =>
    exact ⟨fun h => (nomatch h), fun _ => ⟨newLine heap, rfl, hlength, fun bs hbs => nomatch hbs⟩⟩

/-- Every access of the call is in the block, and after a failed `update` it takes nothing from
there and returns -1. -/
def Good (s : Calls) : Action → Prop
  | .update io => ∀ ret, (s.reader.update io).2 = some ret → 0 ≤ ret ∧ ret < MAX_LEN
  | .getValue index => s.reader.getValue long index ≠ none ∧
      (s.failed = true → s.reader.getValue long index = some (-1) ∧
        ∀ line, s.reader.line = some line → scan index 0 line = .absent)

/-- `getValue` comes after a `read`. -/
def Initialised (s : Calls) : Action → Prop
  | .update _ => True
  | .getValue _ => s.text ≠ none

/-- When `read` is called it does not fail and leaves room for the null byte; `getValue` comes
after a `read`, and after a failed `update` only if what was read before has no such field. -/
def Sound (s : Calls) : Action → Prop
  | .update io => s.reader.Reads io → ∃ bs, io.read = some bs ∧ bs.length < MAX_LEN
  | .getValue index => ∃ bs, s.text = some bs ∧ (s.failed = true → field index bs = .absent)

section Update
variable {s : Calls} {io : Io}

/-- `ret` is a place in the block. -/
theorem ret_iff : (0 ≤ io.ret ∧ io.ret < MAX_LEN) ↔ ∃ bs, io.read = some bs ∧ bs.length < MAX_LEN := by
  unfold Io.ret
  cases io.read with
  | none => simp
  | some bs => simp

theorem update_iff (hs : Terminated s) : Good long s (.update io) ↔ Sound s (.update io) := by
  by_cases hreads : s.reader.Reads io
  · obtain ⟨line, hline, -⟩ := hs.line hreads.1
    obtain ⟨fd, hupdate⟩ := update_of_reads hreads hline
    simp only [Good, Sound, hupdate, Option.some.injEq, forall_eq', hreads, true_imp_iff, ret_iff]
  · obtain ⟨fd, hupdate⟩ := update_of_not_reads hreads
    simp [Good, Sound, hupdate, hreads]

/-- What was read and the null byte behind it are the start of the block. -/
theorem terminate_prefix {line bs : List UInt8} (hlen : bs.length < line.length) :
    bs ++ [0] <+: terminate (bs ++ line.drop bs.length) bs.length := by
  obtain ⟨c, rest, hrest⟩ : ∃ c rest, line.drop bs.length = c :: rest :=
    List.exists_cons_of_ne_nil fun h => by
      have hle := List.drop_eq_nil_iff.mp h
      omega
  have hnonneg : ¬ (bs.length : Int) < 0 := Int.not_lt.mpr (Int.natCast_nonneg _)
  rw [terminate, if_neg hnonneg, Int.toNat_natCast, hrest, List.set_append_right _ _ (Nat.le_refl _),
    Nat.sub_self, List.set_cons_zero]
  exact ⟨rest, by rw [List.append_assoc, List.singleton_append]⟩

theorem length_terminate (line : List UInt8) (ret : Int) : (terminate line ret).length = line.length := by
  unfold terminate
  split
  · rfl
  · exact List.length_set

theorem step_update {s' : Calls} (hs : Terminated s) (hsound : Sound s (.update io))
    (hstep : s.step (.update io) = some s') : Terminated s' := by
  unfold step at hstep
  dsimp only at hstep
  by_cases hreads : s.reader.Reads io
  · obtain ⟨line, hline, hlen, -⟩ := hs.line hreads.1
    obtain ⟨fd, hupdate⟩ := update_of_reads hreads hline
    obtain ⟨bs, hbs, hroom⟩ := hsound hreads
    have hret : io.ret = bs.length := by rw [Io.ret, hbs]; rfl
    rw [hupdate] at hstep
    obtain rfl := Option.some.inj hstep
    refine ⟨fun h => absurd h hreads.1, fun _ => ⟨_, rfl, ?_, fun bs' hbs' => ?_⟩⟩
    · rw [length_terminate, hbs, Option.getD_some, List.length_append, List.length_drop, hlen]
      omega
    · rw [hbs] at hbs'
      obtain rfl := Option.some.inj hbs'
      rw [hbs, Option.getD_some, hret]
      exact terminate_prefix (hlen ▸ hroom)
  · obtain ⟨fd, hupdate⟩ := update_of_not_reads hreads
    rw [hupdate] at hstep
    obtain rfl := Option.some.inj hstep
    exact ⟨hs.null, hs.line⟩

end Update

theorem step_terminated {s s' : Calls} {a : Action} (hs : Terminated s) (hsound : Sound s a)
    (hstep : s.step a = some s') : Terminated s' := by
  cases a with
  | update io => exact step_update hs hsound hstep
  | getValue index =>
    obtain rfl := Option.some.inj hstep
    exact hs

theorem getValue_iff {s : Calls} (hs : Terminated s) (index : Nat) :
    (Good long s (.getValue index) ∧ Initialised s (.getValue index)) ↔ Sound s (.getValue index) := by
  cases htext : s.text with
  | none => simp [Initialised, Sound, htext]
  | some bs =>
    have hpath : s.reader.m_szPath ≠ none := by
      intro h
      rw [(hs.null h).2] at htext
      cases htext
    obtain ⟨line, hline, -, hprefix⟩ := hs.line hpath
    have hstart := hprefix bs htext
    have hvalue := getValue_of_text long hline hstart index
    have hscan : scan index 0 line = .absent ↔ field index bs = .absent := by
      obtain ⟨rest, rfl⟩ := hstart
      rw [scan_append rest (scan_terminated index 0 bs), field]
      cases scan index 0 (bs ++ [0]) <;> simp
    have habsent (h : field index bs = .absent) : fieldValue long index bs = -1 := by
      rw [fieldValue, h]
    simp only [Good, Initialised, Sound, htext, hvalue, hline, Option.some.injEq, forall_eq',
      exists_eq_left', hscan, ne_eq, reduceCtorEq, not_false_eq_true, true_and, and_true]
    exact imp_congr_right fun _ => and_iff_right_of_imp habsent

theorem good_iff_sound {s : Calls} {a : Action} (hs : Terminated s) :
    (Good long s a ∧ Initialised s a) ↔ Sound s a := by
  cases a with
  | update io => exact (and_iff_left trivial).trans (update_iff long hs)
  | getValue index => exact getValue_iff long hs index

/-- In bounds and with nothing stale, along every run. -/
theorem good_iff_sound_along (path : Option (List UInt8)) (heap : Nat → UInt8) (as : List Action) :
    (Along step (Good long) (new path heap) as ∧ Along step Initialised (new path heap) as) ↔
      Along step Sound (new path heap) as := by
  rw [← along_and]
  refine @along_congr _ _ step (fun s a => Good long s a ∧ Initialised s a) Sound Terminated ?_ ?_ as _
    (terminated_new path heap)
  · exact fun hs hgood hstep => step_terminated hs ((good_iff_sound long hs).mp hgood) hstep
  · exact fun hs => good_iff_sound long hs

/-- A `read` that fails, and an `open` that fails before a field is asked for. -/
theorem not_good :
    ¬ (∀ long heap, Along step (Good long) (new (some [47]) heap) [.update ⟨3, none, nofun⟩]) ∧
    ¬ (∀ long heap, Along step (Good long) (new (some [47]) heap)
      [.update ⟨-1, none, nofun⟩, .getValue 0]) := by
  constructor
  · intro h
    exact absurd ((h .lp64 fun _ => 0).1 (-1) rfl).1 (by decide)
  · intro h
    have hgood := (h .lp64 fun n => if n = 0 then 49 else 0).2 _ rfl
    obtain ⟨hvalue, -⟩ := hgood.1.2 rfl
    exact absurd hvalue (by decide +kernel)

end Calls

end ProcFileReader

end Hardcoder
