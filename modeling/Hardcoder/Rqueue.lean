import Hardcoder.Lib.Fifo
import Hardcoder.Lib.Tally

/-! `rqueue` (util.h): a deque behind a mutex and two semaphores, and the bounded queue that
any threads see in it. -/

namespace Hardcoder
open Runs Tally
set_option autoImplicit false

variable {T Thread : Type}

/-- Where a thread stands in the queue's code. -/
inductive Pc (T : Type) where
  | idle
  /-- before `sem_wait(&_semmax)` -/
  | pushWait (obj : T)
  /-- before the locked section of `push` -/
  | pushLock (obj : T)
  /-- before `sem_post(&_semcnt)` -/
  | pushPost
  /-- before `sem_wait(&_semcnt)` -/
  | popWait
  /-- before the locked section of `pop` -/
  | popLock
  /-- before `sem_post(&_semmax)` -/
  | popPost (obj : T)
deriving DecidableEq, Repr

/-- `appended` and `popped` have what went through the deque, in the order of the locked
sections; `fault` is set by `front()` on an empty deque. -/
structure Rqueue (T Thread : Type) where
  q : List T
  semcnt : Nat
  semmax : Nat
  pc : Thread → Pc T
  appended : List T
  popped : List T
  fault : Bool

namespace Rqueue

/-- `queuelen ? queuelen : 65535` -/
def bound (queuelen : Nat) : Nat := if queuelen = 0 then 65535 else queuelen

def new (queuelen : Nat) : Rqueue T Thread where
  q := []
  semcnt := 0
  semmax := bound queuelen
  pc := fun _ => .idle
  appended := []
  popped := []
  fault := false

inductive Action (T Thread : Type) where
  /-- the thread calls `push` -/
  | push (t : Thread) (obj : T)
  /-- the thread calls `pop` -/
  | pop (t : Thread)
  /-- the next step of the thread's call -/
  | go (t : Thread)

variable [DecidableEq Thread]

def goto (s : Rqueue T Thread) (t : Thread) (pc : Pc T) : Rqueue T Thread :=
  { s with pc := Function.update s.pc t pc }

/-- A thread in a call does its next step, unless a semaphore blocks it. -/
def go (s : Rqueue T Thread) (t : Thread) : Option (Rqueue T Thread) :=
  match s.pc t with
  | .idle => none
  | .pushWait obj =>
    if 0 < s.semmax then some ({ s with semmax := s.semmax - 1 }.goto t (.pushLock obj)) else none
  | .pushLock obj =>
    some ({ s with q := s.q ++ [obj], appended := s.appended ++ [obj] }.goto t .pushPost)
  | .pushPost => some ({ s with semcnt := s.semcnt + 1 }.goto t .idle)
  | .popWait =>
    if 0 < s.semcnt then some ({ s with semcnt := s.semcnt - 1 }.goto t .popLock) else none
  | .popLock =>
    match s.q with
    | [] => some ({ s with fault := true }.goto t .idle)
    | obj :: q => some ({ s with q := q, popped := s.popped ++ [obj] }.goto t (.popPost obj))
  | .popPost _ => some ({ s with semmax := s.semmax + 1 }.goto t .idle)

def step (s : Rqueue T Thread) : Action T Thread → Option (Rqueue T Thread)
  | .push t obj =>
    match s.pc t with
    | .idle => some (s.goto t (.pushWait obj))
    | _ => none
  | .pop t =>
    match s.pc t with
    | .idle => some (s.goto t .popWait)
    | _ => none
  | .go t => s.go t

/-! ### What the semaphores count -/

/-- A place that `semmax` no longer offers and no element takes. -/
def room : Pc T → Nat
  | .pushLock _ | .popPost _ => 1
  | _ => 0

/-- An element that `semcnt` does not offer. -/
def due : Pc T → Nat
  | .pushPost | .popLock => 1
  | _ => 0

structure Consistent (queuelen : Nat) (s : Rqueue T Thread) : Prop where
  semmax : ∃ n, Weighs room .idle s.pc n ∧ s.semmax + s.q.length + n = bound queuelen
  semcnt : ∃ n, Weighs due .idle s.pc n ∧ s.semcnt + n = s.q.length
  fault : s.fault = false

omit [DecidableEq Thread] in
theorem consistent_new (queuelen : Nat) : Consistent queuelen (new queuelen : Rqueue T Thread) :=
  ⟨⟨0, weighs_idle, rfl⟩, ⟨0, weighs_idle, rfl⟩, rfl⟩

section Step
variable {queuelen : Nat} {s s' : Rqueue T Thread} {t : Thread}

/-- A thread moves on, and the semaphores and the deque with it. -/
theorem Consistent.goto (h : Consistent queuelen s) {pc : Pc T} (ht : s.pc t = pc)
    (r : Rqueue T Thread) (hpc : r.pc = s.pc) (hfault : r.fault = false) (pc' : Pc T)
    (hroom : s.semmax + s.q.length + room pc = r.semmax + r.q.length + room pc')
    (hdue : s.semcnt + r.q.length + due pc = r.semcnt + s.q.length + due pc') :
    Consistent queuelen (r.goto t pc') := by
  subst ht
  obtain ⟨⟨n, hn, hsemmax⟩, ⟨m, hm, hsemcnt⟩, -⟩ := h
  have hroomle := hn.le rfl t
  have hduele := hm.le rfl t
  have hpcs : (r.goto t pc').pc = Function.update s.pc t pc' := by rw [Rqueue.goto, hpc]
  refine ⟨⟨n + room pc' - room (s.pc t), ?_, ?_⟩, ⟨m + due pc' - due (s.pc t), ?_, ?_⟩, hfault⟩
  · rw [hpcs]
    exact hn.update rfl t pc' (by omega)
  · change r.semmax + r.q.length + _ = _
    omega
  · rw [hpcs]
    exact hm.update rfl t pc' (by omega)
  · change r.semcnt + _ = r.q.length
    omega

/-- The deque with its histories. -/
def fifo (s : Rqueue T Thread) : Fifo T := ⟨s.q, s.appended, s.popped⟩

/-- The locked section that the thread is about to do. -/
def access : Pc T → List (Fifo.Action T)
  | .pushLock obj => [.append obj]
  | .popLock => [.take]
  | _ => []

/-- One step of a thread is an access to the deque or nothing to it. -/
theorem go_spec (h : Consistent queuelen s) (hgo : s.go t = some s') :
    Consistent queuelen s' ∧
      run (Fifo.step (bound queuelen)) s.fifo (access (s.pc t)) = some s'.fifo := by
  obtain ⟨n, hn, hsemmax⟩ := h.semmax
  obtain ⟨m, hm, hsemcnt⟩ := h.semcnt
  have hroom := hn.le rfl t
  have hdue := hm.le rfl t
  unfold go at hgo
  cases hpc : s.pc t with
  | idle =>
    rw [hpc] at hgo
    cases hgo
  | pushWait obj =>
    simp only [hpc] at hgo
    obtain ⟨hpos, hgo⟩ := Option.ite_none_right_eq_some.mp hgo
    obtain rfl := Option.some.inj hgo
    refine ⟨h.goto hpc { s with semmax := s.semmax - 1 } rfl h.fault _ ?_ ?_, rfl⟩
    · simp only [room]
      omega
    · simp only [due]
  | pushLock obj =>
    simp only [hpc] at hgo
    obtain rfl := Option.some.inj hgo
    rw [hpc] at hroom
    have hfree : s.q.length < bound queuelen := by
      simp only [room] at hroom
      omega
    have happend : Fifo.step (bound queuelen) s.fifo (.append obj) =
        some ⟨s.q ++ [obj], s.appended ++ [obj], s.popped⟩ := if_pos hfree
    refine ⟨h.goto hpc { s with q := s.q ++ [obj], appended := s.appended ++ [obj] } rfl h.fault _ ?_ ?_,
      run_cons.mpr ⟨_, happend, rfl⟩⟩
    · simp only [room, List.length_append, List.length_singleton]
      omega
    · simp only [due, List.length_append, List.length_singleton]
      omega
  | pushPost =>
    simp only [hpc] at hgo
    obtain rfl := Option.some.inj hgo
    refine ⟨h.goto hpc { s with semcnt := s.semcnt + 1 } rfl h.fault _ ?_ ?_, rfl⟩
    · simp only [room]
    · simp only [due]
      omega
  | popWait =>
    simp only [hpc] at hgo
    obtain ⟨hpos, hgo⟩ := Option.ite_none_right_eq_some.mp hgo
    obtain rfl := Option.some.inj hgo
    refine ⟨h.goto hpc { s with semcnt := s.semcnt - 1 } rfl h.fault _ ?_ ?_, rfl⟩
    · simp only [room]
    · simp only [due]
      omega
  | popLock =>
    rw [hpc] at hdue
    cases hq : s.q with
    | nil =>
      -- the element this thread has waited for is still there
      rw [hq, List.length_nil] at hsemcnt
      simp only [due] at hdue
      omega
    | cons obj q =>
      simp only [hpc, hq] at hgo
      obtain rfl := Option.some.inj hgo
      have htake : Fifo.step (bound queuelen) s.fifo .take =
          some ⟨q, s.appended, s.popped ++ [obj]⟩ := by
        simp only [Fifo.step, fifo, hq]
      refine ⟨h.goto hpc { s with q := q, popped := s.popped ++ [obj] } rfl h.fault _ ?_ ?_,
        run_cons.mpr ⟨_, htake, rfl⟩⟩
      · simp only [room, hq, List.length_cons]
        omega
      · simp only [due, hq, List.length_cons]
        omega
  | popPost obj =>
    simp only [hpc] at hgo
    obtain rfl := Option.some.inj hgo
    refine ⟨h.goto hpc { s with semmax := s.semmax + 1 } rfl h.fault _ ?_ ?_, rfl⟩
    · simp only [room]
      omega
    · simp only [due]

/-- What one step of the system does to the deque. -/
def accesses (s : Rqueue T Thread) : Action T Thread → List (Fifo.Action T)
  | .go t => access (s.pc t)
  | _ => []

theorem step_spec {a : Action T Thread} (h : Consistent queuelen s) (hstep : step s a = some s') :
    Consistent queuelen s' ∧
      run (Fifo.step (bound queuelen)) s.fifo (accesses s a) = some s'.fifo := by
  cases a with
  | push t obj =>
    simp only [step] at hstep
    split at hstep
    · rename_i hpc
      obtain rfl := Option.some.inj hstep
      exact ⟨h.goto hpc s rfl h.fault _ rfl rfl, rfl⟩
    · cases hstep
  | pop t =>
    simp only [step] at hstep
    split at hstep
    · rename_i hpc
      obtain rfl := Option.some.inj hstep
      exact ⟨h.goto hpc s rfl h.fault _ rfl rfl, rfl⟩
    · cases hstep
  | go t => exact go_spec h hstep

end Step

/-- Every state of a run is one of the queue with the bound. -/
structure Refines (queuelen : Nat) (s : Rqueue T Thread) : Prop where
  consistent : Consistent queuelen s
  fifo : ∃ log, run (Fifo.step (bound queuelen)) Fifo.new log = some s.fifo

theorem run_refines (queuelen : Nat) {as : List (Action T Thread)} {s : Rqueue T Thread}
    (h : run step (new queuelen) as = some s) : Refines queuelen s := by
  have hall : Along step (fun _ _ => True) (new queuelen : Rqueue T Thread) as :=
    along_of_forall fun _ _ => trivial
  refine run_invariant ?_ ⟨consistent_new queuelen, [], rfl⟩ hall h
  intro s a s' hs _ hstep
  obtain ⟨log, hlog⟩ := hs.fifo
  obtain ⟨hconsistent, haccess⟩ := step_spec hs.consistent hstep
  exact ⟨hconsistent, log ++ accesses s a, run_append.mpr ⟨_, hlog, haccess⟩⟩

/-- Any threads may push and pop: the deque stays within the bound, no `pop` finds it empty, and
what was popped and what is left is what was appended, in its order. -/
theorem rqueue_ordered (queuelen : Nat) {as : List (Action T Thread)} {s : Rqueue T Thread}
    (h : run step (new queuelen) as = some s) :
    s.q.length ≤ bound queuelen ∧ s.fault = false ∧ s.appended = s.popped ++ s.q := by
  obtain ⟨hconsistent, log, hlog⟩ := run_refines queuelen h
  have hordered := Fifo.run_ordered Fifo.ordered_new hlog
  exact ⟨hordered.length, hconsistent.fault, hordered.appended⟩

theorem rqueue_ordered_witness :
    ∃ s, run step (new 1 : Rqueue Nat Nat)
      [.push 0 7, .go 0, .pop 1, .go 0, .push 2 8, .go 0, .go 1, .go 1, .go 1, .go 2] = some s ∧
    s.q.length ≤ bound 1 ∧ s.fault = false ∧ s.appended = s.popped ++ s.q :=
  ⟨_, rfl, @rqueue_ordered Nat Nat _ 1
    [.push 0 7, .go 0, .pop 1, .go 0, .push 2 8, .go 0, .go 1, .go 1, .go 1, .go 2] _ rfl⟩

/-! ### Calls that no other thread disturbs -/

section Alone
variable {queuelen : Nat} {s : Rqueue T Thread} (t : Thread)

omit [DecidableEq Thread] in
theorem semaphores_of_idle (h : Consistent queuelen s) (hidle : ∀ t, s.pc t = .idle) :
    s.semmax + s.q.length = bound queuelen ∧ s.semcnt = s.q.length := by
  obtain ⟨⟨n, hn, hsemmax⟩, ⟨m, hm, hsemcnt⟩, -⟩ := h
  have hn0 := hn.eq_zero rfl hidle
  have hm0 := hm.eq_zero rfl hidle
  omega

/-- `push` waits just when the queue is full. -/
theorem push_alone (h : Consistent queuelen s) (hidle : ∀ t, s.pc t = .idle) (obj : T) :
    (run step s [.push t obj, .go t, .go t, .go t]).map (·.q) =
      if s.q.length < bound queuelen then some (s.q ++ [obj]) else none := by
  obtain ⟨hsemmax, -⟩ := semaphores_of_idle h hidle
  by_cases hroom : s.q.length < bound queuelen
  · have hpos : 0 < s.semmax := by omega
    simp [run, step, go, goto, hidle t, hpos, hroom]
  · have hfull : s.semmax = 0 := by omega
    simp [run, step, go, goto, hidle t, hfull, hroom]

/-- `pop` waits just when the queue is empty. -/
theorem pop_alone (h : Consistent queuelen s) (hidle : ∀ t, s.pc t = .idle) :
    (run step s [.pop t, .go t, .go t, .go t]).map (·.q) = if s.q = [] then none else some s.q.tail := by
  obtain ⟨-, hsemcnt⟩ := semaphores_of_idle h hidle
  cases hq : s.q with
  | nil =>
    rw [hq, List.length_nil] at hsemcnt
    simp [run, step, go, goto, hidle t, hsemcnt]
  | cons obj q =>
    have hpos : 0 < s.semcnt := by
      rw [hsemcnt, hq]
      exact Nat.succ_pos _
    simp [run, step, go, goto, hidle t, hpos, hq]

end Alone

end Rqueue

end Hardcoder
