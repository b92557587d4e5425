import Mathlib.Data.List.Nodup
import Mathlib.Logic.Function.Basic
import Hardcoder.Lib.Runs

/-! The send queue of a `LocalSocket`. Any thread may call `sendData` while the thread in
`loop` takes a pointer to the front pack, sends what the socket accepts of it, and takes
the pack off later. -/

namespace Hardcoder
open Runs
set_option autoImplicit false

namespace LocalSocket

abbrev Fd := Nat

/-- An address that `new SendPack()` may return. -/
abbrev Ptr := Nat

/-- `len` is the length of `data`. -/
structure SendPack where
  fd : Fd
  data : List UInt8
  offset : Nat
deriving DecidableEq, Repr

/-- Where the thread in `loop` is. -/
inductive Pc where
  /-- head of the `while` -/
  | top
  /-- `front` has returned a pack -/
  | front (sendPack : Ptr)
  /-- `offset == len`, before `pop` -/
  | sent (sendPack : Ptr)
  /-- `send` has failed on a server's client, before `pop` -/
  | failed (sendPack : Ptr)
  /-- `select` and what follows it -/
  | select
  /-- out of the `while` -/
  | left
deriving DecidableEq, Repr

structure Sys where
  m_fd : Fd
  heap : Ptr → Option SendPack
  /-- made by `sendData` calls that have not pushed them yet -/
  made : List Ptr
  m_sendQueue : List Ptr
  pc : Pc
  /-- what was passed to `sendData`, in the order of the pushes -/
  pushed : List (Fd × List UInt8)
  /-- what the kernel has accepted on each descriptor -/
  handed : Fd → List UInt8
  /-- the descriptors a `send` failed on -/
  refused : List Fd

def init (m_fd : Fd) : Sys where
  m_fd := m_fd
  heap := fun _ => none
  made := []
  m_sendQueue := []
  pc := .top
  pushed := []
  handed := fun _ => []
  refused := []

/-- `queuelen` of the `rqueue` -/
def queuelen : Nat := 5

inductive Action where
  /-- `sendData` up to `push`, with the pack at address `p` -/
  | sendData (p : Ptr) (fd : Fd) (data : List UInt8)
  /-- a thread that has waited for it gets a place in the queue -/
  | push (p : Ptr)
  | front
  /-- what `checkCanWrite` and `send` return -/
  | send (canWrite : Bool) (ret : Int)
  /-- `pop` and the `delete`s -/
  | pop
  /-- the rest of the pass: `select` and the received data -/
  | select
deriving DecidableEq, Repr

namespace Sys

def sendData (s : Sys) (p : Ptr) (fd : Fd) (data : List UInt8) : Option Sys :=
  if data = [] then some s
  else if s.heap p ≠ none then none
  else some { s with heap := Function.update s.heap p (some ⟨fd, data, 0⟩), made := p :: s.made }

def push (s : Sys) (p : Ptr) : Option Sys :=
  if p ∈ s.made ∧ s.m_sendQueue.length < queuelen then
    (s.heap p).map fun sendPack => { s with
      made := s.made.erase p
      m_sendQueue := s.m_sendQueue ++ [p]
      pushed := s.pushed ++ [(sendPack.fd, sendPack.data)] }
  else none

/-- `while (m_fd)` and `m_sendQueue.front()` -/
def front (s : Sys) : Sys :=
  if s.m_fd = 0 then { s with pc := .left }
  else
    match s.m_sendQueue with
    | [] => { s with pc := .select }
    | p :: _ => { s with pc := .front p }

/-- `send(sendPack->fd, sendPack->data + sendPack->offset, ..)`; the kernel accepts at most
what it is given. -/
def send (s : Sys) (p : Ptr) (sendPack : SendPack) (canWrite : Bool) (ret : Int) : Option Sys :=
  let rest := sendPack.data.drop sendPack.offset
  if canWrite = false then some { s with pc := .select }
  else if ret < 0 then
    some { s with
      refused := sendPack.fd :: s.refused
      pc := if sendPack.fd = s.m_fd then .left else .failed p }
  else if rest.length < ret then none
  else
    let sent := { sendPack with offset := sendPack.offset + ret.toNat }
    some { s with
      heap := Function.update s.heap p (some sent)
      handed := Function.update s.handed sent.fd (s.handed sent.fd ++ rest.take ret.toNat)
      pc := if sent.offset = sent.data.length then .sent p else .select }

/-- `m_sendQueue.pop()`, which waits for an element, and `delete sendPack` -/
def pop (s : Sys) (sendPack : Ptr) (pc : Pc) : Option Sys :=
  match s.m_sendQueue with
  | [] => none
  | _ :: queue => some { s with
    m_sendQueue := queue
    heap := Function.update s.heap sendPack none
    pc := pc }

end Sys

def step (s : Sys) : Action → Option Sys
  | .sendData p fd data => s.sendData p fd data
  | .push p => s.push p
  | .front => if s.pc = .top then some s.front else none
  | .send canWrite ret =>
    match s.pc with
    | .front p => (s.heap p).bind fun sendPack => s.send p sendPack canWrite ret
    | _ => none
  | .pop =>
    match s.pc with
    | .sent p => s.pop p .select
    | .failed p => s.pop p .top
    | _ => none
  | .select => if s.pc = .select then some { s with pc := .top } else none

/-- The unsent rest of the pack at `p`, if it is for `fd`. -/
def rest (heap : Ptr → Option SendPack) (fd : Fd) (p : Ptr) : List UInt8 :=
  match heap p with
  | some sendPack => if sendPack.fd = fd then sendPack.data.drop sendPack.offset else []
  | none => []

/-- The unsent rest of the packs for `fd` in the queue. -/
def Sys.unsent (s : Sys) (fd : Fd) : List UInt8 := s.m_sendQueue.flatMap (rest s.heap fd)

/-- All data pushed for `fd`. -/
def Sys.pushedTo (s : Sys) (fd : Fd) : List UInt8 :=
  s.pushed.flatMap fun x => if x.1 = fd then x.2 else []

/-- The pack that the thread in `loop` points to. -/
def Pc.sendPack : Pc → Option Ptr
  | .front p | .sent p | .failed p => some p
  | .top | .select | .left => none

/-- Packs are where the pointers say, the front pack stays in front, and no byte is lost. -/
structure Inv (s : Sys) : Prop where
  distinct : (s.m_sendQueue ++ s.made).Nodup
  alive : ∀ p ∈ s.m_sendQueue ++ s.made, s.heap p ≠ none
  unsent : ∀ p ∈ s.made, ∀ sendPack, s.heap p = some sendPack → sendPack.offset = 0
  held : ∀ p ∈ s.pc.sendPack, s.m_sendQueue.head? = some p
  sent : ∀ p, s.pc = .sent p → ∀ sendPack, s.heap p = some sendPack →
    sendPack.offset = sendPack.data.length
  failed : ∀ p, s.pc = .failed p → ∀ sendPack, s.heap p = some sendPack → sendPack.fd ∈ s.refused
  bytes : ∀ fd, fd ∉ s.refused → s.handed fd ++ s.unsent fd = s.pushedTo fd

theorem inv_init (m_fd : Fd) : Inv (init m_fd) where
  distinct := List.nodup_nil
  alive := fun _ hp => by cases hp
  unsent := fun _ hp => by cases hp
  held := fun _ hp => by cases hp
  sent := fun _ hp => by cases hp
  failed := fun _ hp => by cases hp
  bytes := fun _ _ => rfl

section Heap
variable {heap : Ptr → Option SendPack} {p q : Ptr} {v : Option SendPack} {fd : Fd}

theorem rest_update_of_ne (h : q ≠ p) : rest (Function.update heap p v) fd q = rest heap fd q := by
  rw [rest, Function.update_of_ne h, rest]

/-- A pack outside the queue does not matter to it. -/
theorem flatMap_rest_update {queue : List Ptr} (h : p ∉ queue) :
    queue.flatMap (rest (Function.update heap p v) fd) = queue.flatMap (rest heap fd) := by
  apply List.flatMap_congr
  intro q hq
  apply rest_update_of_ne
  rintro rfl
  exact h hq

theorem rest_of_some {sendPack : SendPack} (h : heap p = some sendPack) (hfd : sendPack.fd = fd) :
    rest heap fd p = sendPack.data.drop sendPack.offset := by
  rw [rest, h]
  exact if_pos hfd

theorem rest_of_ne {sendPack : SendPack} (h : heap p = some sendPack) (hfd : sendPack.fd ≠ fd) :
    rest heap fd p = [] := by
  rw [rest, h]
  exact if_neg hfd

end Heap

namespace Inv
variable {s s' : Sys} (h : Inv s)
include h

theorem queue_cons {p : Ptr} (hp : s.pc.sendPack = some p) :
    ∃ queue, s.m_sendQueue = p :: queue ∧ p ∉ queue ∧ p ∉ s.made := by
  have hhead := h.held p hp
  have hdistinct := h.distinct
  cases hqueue : s.m_sendQueue with
  | nil =>
    rw [hqueue] at hhead
    cases hhead
  | cons q queue =>
    rw [hqueue] at hhead hdistinct
    obtain rfl := Option.some.inj hhead
    rw [List.cons_append, List.nodup_cons, List.mem_append, not_or] at hdistinct
    exact ⟨queue, rfl, hdistinct.1⟩

theorem sendData {p : Ptr} {fd : Fd} {data : List UInt8} (hs : s.sendData p fd data = some s') :
    Inv s' := by
  unfold Sys.sendData at hs
  split at hs
  · obtain rfl := Option.some.inj hs
    exact h
  split at hs
  · cases hs
  rename_i hfree
  obtain rfl := Option.some.inj hs
  have hnone : s.heap p = none := not_not.mp hfree
  have hnew : p ∉ s.m_sendQueue ++ s.made := fun hp => h.alive p hp hnone
  have hne : ∀ q ∈ s.m_sendQueue ++ s.made, q ≠ p := fun q hq heq => hnew (heq ▸ hq)
  have hheld : ∀ q, s.pc.sendPack = some q → q ≠ p := by
    intro q hq
    obtain ⟨queue, hqueue, -⟩ := h.queue_cons hq
    apply hne
    rw [hqueue]
    exact List.mem_append_left _ List.mem_cons_self
  refine ⟨?_, fun q hq => ?_, fun q hq sendPack hsome => ?_, h.held, fun q hq sendPack hsome => ?_,
    fun q hq sendPack hsome => ?_, fun fd' hfd' => ?_⟩
  · exact List.nodup_middle.mpr (List.nodup_cons.mpr ⟨hnew, h.distinct⟩)
  · by_cases hpq : q = p
    · rw [hpq]
      dsimp only
      rw [Function.update_self]
      exact Option.some_ne_none _
    · dsimp only
      rw [Function.update_of_ne hpq]
      apply h.alive
      rcases List.mem_append.mp hq with hq | hq
      · exact List.mem_append_left _ hq
      · exact List.mem_append_right _ ((List.mem_cons.mp hq).resolve_left hpq)
  · dsimp only at hsome hq
    by_cases hpq : q = p
    · rw [hpq, Function.update_self] at hsome
      obtain rfl := Option.some.inj hsome
      rfl
    · rw [Function.update_of_ne hpq] at hsome
      exact h.unsent q ((List.mem_cons.mp hq).resolve_left hpq) sendPack hsome
  · dsimp only at hsome hq
    have hpq : q ≠ p := hheld q (by rw [hq]; rfl)
    rw [Function.update_of_ne hpq] at hsome
    exact h.sent q hq sendPack hsome
  · dsimp only at hsome hq
    have hpq : q ≠ p := hheld q (by rw [hq]; rfl)
    rw [Function.update_of_ne hpq] at hsome
    exact h.failed q hq sendPack hsome
  · rw [Sys.unsent, flatMap_rest_update fun hp => hnew (List.mem_append_left _ hp)]
    exact h.bytes fd' hfd'

theorem push {p : Ptr} (hs : s.push p = some s') : Inv s' := by
  unfold Sys.push at hs
  split at hs
  · rename_i hmade
    obtain ⟨sendPack, hsome, rfl⟩ := Option.map_eq_some_iff.mp hs
    have hperm : (s.m_sendQueue ++ [p] ++ s.made.erase p).Perm (s.m_sendQueue ++ s.made) := by
      rw [List.append_assoc]
      exact (List.perm_cons_erase hmade.1).symm.append_left _
    refine ⟨hperm.nodup_iff.mpr h.distinct, fun q hq => h.alive q (hperm.mem_iff.mp hq),
      fun q hq => h.unsent q (List.mem_of_mem_erase hq), fun q hq => ?_, h.sent, h.failed,
      fun fd hfd => ?_⟩
    · rw [List.head?_append, h.held q hq]
      rfl
    · have hbytes := h.bytes fd hfd
      have hzero := h.unsent p hmade.1 sendPack hsome
      have hrest : rest s.heap fd p = if sendPack.fd = fd then sendPack.data else [] := by
        rw [rest, hsome]
        dsimp only
        rw [hzero, List.drop_zero]
      rw [Sys.unsent, Sys.pushedTo, List.flatMap_append, List.flatMap_append,
        List.flatMap_singleton, List.flatMap_singleton, hrest, ← List.append_assoc]
      exact congrArg (· ++ _) hbytes
  · cases hs

theorem front : Inv s.front := by
  unfold Sys.front
  split
  · exact ⟨h.distinct, h.alive, h.unsent, fun _ hp => (by cases hp), fun _ hp => (by cases hp),
      fun _ hp => (by cases hp), h.bytes⟩
  split
  · exact ⟨h.distinct, h.alive, h.unsent, fun _ hp => (by cases hp), fun _ hp => (by cases hp),
      fun _ hp => (by cases hp), h.bytes⟩
  · rename_i p queue hqueue
    refine ⟨h.distinct, h.alive, h.unsent, fun q hq => ?_, fun _ hp => (by cases hp),
      fun _ hp => (by cases hp), h.bytes⟩
    dsimp only
    rw [hqueue]
    exact hq

theorem send {p : Ptr} {sendPack : SendPack} (hpc : s.pc = .front p)
    (hpack : s.heap p = some sendPack) {canWrite : Bool} {ret : Int}
    (hs : s.send p sendPack canWrite ret = some s') : Inv s' := by
  have hholds : s.pc.sendPack = some p := by rw [hpc]; rfl
  obtain ⟨queue, hqueue, hnot, hmade⟩ := h.queue_cons hholds
  unfold Sys.send at hs
  dsimp only at hs
  split at hs
  · obtain rfl := Option.some.inj hs
    exact ⟨h.distinct, h.alive, h.unsent, fun _ hp => (by cases hp), fun _ hp => (by cases hp),
      fun _ hp => (by cases hp), h.bytes⟩
  split at hs
  · obtain rfl := Option.some.inj hs
    have hbytes : ∀ fd, fd ∉ sendPack.fd :: s.refused →
        s.handed fd ++ s.unsent fd = s.pushedTo fd :=
      fun fd hfd => h.bytes fd fun hmem => hfd (List.mem_cons_of_mem _ hmem)
    split
    · exact ⟨h.distinct, h.alive, h.unsent, fun _ hp => (by cases hp), fun _ hp => (by cases hp),
        fun _ hp => (by cases hp), hbytes⟩
    · refine ⟨h.distinct, h.alive, h.unsent, fun q hq => h.held q ?_, fun _ hp => (by cases hp),
        fun q hq pack hsome => ?_, hbytes⟩
      · rw [hholds]
        exact hq
      · obtain rfl := Pc.failed.inj hq
        obtain rfl := Option.some.inj (hpack.symm.trans hsome)
        exact List.mem_cons_self
  split at hs
  · cases hs
  obtain rfl := Option.some.inj hs
  refine ⟨h.distinct, fun q hq => ?_, fun q hq pack hsome => ?_, fun q hq => ?_,
    fun q hq pack hsome => ?_, fun q hq => ?_, fun fd hfd => ?_⟩
  · dsimp only
    by_cases hpq : q = p
    · rw [hpq, Function.update_self]
      exact Option.some_ne_none _
    · rw [Function.update_of_ne hpq]
      exact h.alive q hq
  · have hpq : q ≠ p := fun heq => hmade (heq ▸ hq)
    dsimp only at hsome
    rw [Function.update_of_ne hpq] at hsome
    exact h.unsent q hq pack hsome
  · dsimp only at hq
    split at hq
    · obtain rfl := Option.some.inj hq
      exact h.held p hholds
    · cases hq
  · dsimp only at hq hsome
    split at hq
    · rename_i hwhole
      obtain rfl := Pc.sent.inj hq
      rw [Function.update_self] at hsome
      obtain rfl := Option.some.inj hsome
      exact hwhole
    · cases hq
  · dsimp only at hq
    split at hq <;> cases hq
  · have hbytes := h.bytes fd hfd
    rw [Sys.unsent, hqueue, List.flatMap_cons] at hbytes ⊢
    rw [flatMap_rest_update hnot]
    dsimp only
    by_cases heq : sendPack.fd = fd
    · subst heq
      rw [rest_of_some hpack rfl] at hbytes
      rw [rest_of_some (Function.update_self p _ _) rfl, Function.update_self, ← List.drop_drop,
        List.append_assoc, ← List.append_assoc (List.take _ _), List.take_append_drop]
      exact hbytes
    · rw [rest_of_ne hpack heq] at hbytes
      rw [@rest_of_ne _ p fd { sendPack with offset := sendPack.offset + ret.toNat }
        (Function.update_self p _ _) heq, Function.update_of_ne (Ne.symm heq)]
      exact hbytes

/-- What is taken off is sent, or was for a descriptor that a `send` failed on. -/
theorem pop {p : Ptr} {pc : Pc} (hholds : s.pc.sendPack = some p) (hpc : pc.sendPack = none)
    (hrest : ∀ fd, fd ∉ s.refused → rest s.heap fd p = []) (hs : s.pop p pc = some s') :
    Inv s' := by
  obtain ⟨queue, hqueue, hnot, hmade⟩ := h.queue_cons hholds
  unfold Sys.pop at hs
  rw [hqueue] at hs
  obtain rfl := Option.some.inj hs
  have hdistinct := h.distinct
  rw [hqueue, List.cons_append, List.nodup_cons] at hdistinct
  refine ⟨hdistinct.2, fun q hq => ?_, fun q hq pack hsome => ?_, fun q hq => ?_,
    fun q hq => ?_, fun q hq => ?_, fun fd hfd => ?_⟩
  · have hpq : q ≠ p := fun heq => hdistinct.1 (heq ▸ hq)
    dsimp only
    rw [Function.update_of_ne hpq]
    apply h.alive
    rw [hqueue]
    exact List.mem_cons_of_mem _ hq
  · have hpq : q ≠ p := fun heq => hmade (heq ▸ hq)
    dsimp only at hsome
    rw [Function.update_of_ne hpq] at hsome
    exact h.unsent q hq pack hsome
  · rw [hpc] at hq
    cases hq
  · dsimp only at hq
    rw [hq] at hpc
    cases hpc
  · dsimp only at hq
    rw [hq] at hpc
    cases hpc
  · have hbytes := h.bytes fd hfd
    rw [Sys.unsent, hqueue, List.flatMap_cons, hrest fd hfd, List.nil_append] at hbytes
    rw [Sys.unsent, flatMap_rest_update hnot]
    exact hbytes

theorem step {a : Action} (hs : LocalSocket.step s a = some s') : Inv s' := by
  cases a with
  | sendData p fd data => exact h.sendData hs
  | push p => exact h.push hs
  | front =>
    obtain ⟨-, hs⟩ := Option.ite_none_right_eq_some.mp hs
    obtain rfl := Option.some.inj hs
    exact h.front
  | send canWrite ret =>
    unfold LocalSocket.step at hs
    dsimp only at hs
    split at hs
    · rename_i p hpc
      obtain ⟨sendPack, hpack, hs⟩ := Option.bind_eq_some_iff.mp hs
      exact h.send hpc hpack hs
    · cases hs
  | pop =>
    unfold LocalSocket.step at hs
    dsimp only at hs
    split at hs
    · rename_i p hpc
      refine h.pop (by rw [hpc]; rfl) rfl (fun fd _ => ?_) hs
      unfold rest
      split
      · rename_i pack hpack
        rw [h.sent p hpc pack hpack, List.drop_length, ite_self]
      · rfl
    · rename_i p hpc
      refine h.pop (by rw [hpc]; rfl) rfl (fun fd hfd => ?_) hs
      unfold rest
      split
      · rename_i pack hpack
        refine if_neg fun heq => hfd ?_
        rw [← heq]
        exact h.failed p hpc pack hpack
      · rfl
    · cases hs
  | select =>
    obtain ⟨-, hs⟩ := Option.ite_none_right_eq_some.mp hs
    obtain rfl := Option.some.inj hs
    exact ⟨h.distinct, h.alive, h.unsent, fun _ hp => (by cases hp), fun _ hp => (by cases hp),
      fun _ hp => (by cases hp), h.bytes⟩

end Inv

/-- At any time, what the kernel has accepted on a descriptor and what is left of its packs
is all that was pushed for it, in that order, unless a `send` on it has failed. -/
theorem transmitIntegrity {m_fd : Fd} {as : List Action} {s : Sys}
    (hrun : run step (init m_fd) as = some s) {fd : Fd} (hfd : fd ∉ s.refused) :
    s.handed fd ++ s.unsent fd = s.pushedTo fd :=
  (@run_invariant _ _ step (fun _ _ => True) Inv (fun h _ hs => h.step hs) _ _ _ (inv_init m_fd)
    (along_of_forall fun _ _ => trivial) hrun).bytes fd hfd

/-- Two threads send at once; the first pack takes two `send`s, and the second one fails. -/
def twoThreads : List Action :=
  [.sendData 1 6 [1, 2, 3], .sendData 2 7 [4], .push 1, .front, .push 2, .send true 2, .select,
    .sendData 3 6 [5], .front, .send true 1, .push 3, .pop, .select, .front, .send true (-1), .pop]

theorem transmitIntegrity_twoThreads : ∃ s, run step (init 5) twoThreads = some s ∧
    (s.handed 6, s.unsent 6) = ([1, 2, 3], [5]) ∧ s.handed 6 ++ s.unsent 6 = s.pushedTo 6 := by
  have hrun : (run step (init 5) twoThreads).map (fun s =>
      (s.refused, s.handed 6, s.unsent 6)) = some ([7], [1, 2, 3], [5]) := rfl
  obtain ⟨s, hs, heq⟩ := Option.map_eq_some_iff.mp hrun
  obtain ⟨hrefused, hbytes⟩ := Prod.mk.inj heq
  refine ⟨s, hs, hbytes, transmitIntegrity hs ?_⟩
  rw [hrefused]
  decide

end LocalSocket

end Hardcoder
