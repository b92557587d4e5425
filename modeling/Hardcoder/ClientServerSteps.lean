import Hardcoder.ClientServer

/-! What a step of a `LocalSocket` leaves as it is. -/

namespace Hardcoder
open Stream Runs
set_option autoImplicit false

namespace LocalSocket
variable {s s' : Sys}

theorem sendData_eq {p : Ptr} {fd : Fd} {data : List UInt8}
    (h : step s (.sendData p fd data) = some s') :
    (data = [] ∧ s' = s) ∨ (s.heap p = none ∧ s' = { s with
      heap := Function.update s.heap p (some ⟨fd, data, 0⟩)
      made := p :: s.made }) := by
  simp only [step, Sys.sendData] at h
  split at h
  · exact .inl ⟨‹_›, (Option.some.inj h).symm⟩
  split at h
  · cases h
  · exact .inr ⟨not_not.mp ‹_›, (Option.some.inj h).symm⟩

theorem push_eq {p : Ptr} (h : step s (.push p) = some s') :
    ∃ sendPack, p ∈ s.made ∧ s.heap p = some sendPack ∧ s' = { s with
      made := s.made.erase p
      m_sendQueue := s.m_sendQueue ++ [p]
      pushed := s.pushed ++ [(sendPack.fd, sendPack.data)] } := by
  simp only [step, Sys.push] at h
  split at h
  · obtain ⟨sendPack, hpack, rfl⟩ := Option.map_eq_some_iff.mp h
    exact ⟨sendPack, (‹_› : _ ∧ _).1, hpack, rfl⟩
  · cases h

/-- What the thread in `loop` keeps. -/
structure LoopKeeps (s s' : Sys) : Prop where
  made : s'.made = s.made
  pushed : s'.pushed = s.pushed
  heap : ∀ p ∈ s.made, s'.heap p = s.heap p

/-- What every step keeps. -/
structure Grows (s s' : Sys) : Prop where
  handed : ∀ fd, s.handed fd <+: s'.handed fd
  refused : ∀ fd ∈ s.refused, fd ∈ s'.refused

theorem Grows.of_eq (hhanded : s'.handed = s.handed) (hrefused : s'.refused = s.refused) :
    Grows s s' where
  handed := fun fd => by rw [hhanded]
  refused := fun fd hfd => by rwa [hrefused]

theorem front_eq : s.front.handed = s.handed ∧ s.front.refused = s.refused ∧
    s.front.made = s.made ∧ s.front.pushed = s.pushed ∧ s.front.heap = s.heap := by
  unfold Sys.front
  split
  · exact ⟨rfl, rfl, rfl, rfl, rfl⟩
  · split <;> exact ⟨rfl, rfl, rfl, rfl, rfl⟩

theorem send_keeps {p : Ptr} {sendPack : SendPack} {canWrite : Bool} {ret : Int} (hp : p ∉ s.made)
    (h : s.send p sendPack canWrite ret = some s') : LoopKeeps s s' ∧ Grows s s' := by
  unfold Sys.send at h
  dsimp only at h
  split at h
  · obtain rfl := Option.some.inj h
    exact ⟨⟨rfl, rfl, fun _ _ => rfl⟩, .of_eq rfl rfl⟩
  split at h
  · obtain rfl := Option.some.inj h
    exact ⟨⟨rfl, rfl, fun _ _ => rfl⟩, fun _ => List.prefix_rfl, fun _ h => List.mem_cons_of_mem _ h⟩
  split at h
  · cases h
  obtain rfl := Option.some.inj h
  refine ⟨⟨rfl, rfl, fun q hq => Function.update_of_ne (ne_of_mem_of_not_mem hq hp) _ _⟩,
    fun fd => ?_, fun _ h => h⟩
  dsimp only
  by_cases heq : fd = sendPack.fd
  · rw [heq, Function.update_self]
    exact List.prefix_append _ _
  · rw [Function.update_of_ne heq]

theorem pop_keeps {p : Ptr} {pc : Pc} (hp : p ∉ s.made) (h : s.pop p pc = some s') :
    LoopKeeps s s' ∧ Grows s s' := by
  unfold Sys.pop at h
  split at h
  · cases h
  · obtain rfl := Option.some.inj h
    exact ⟨⟨rfl, rfl, fun q hq => Function.update_of_ne (ne_of_mem_of_not_mem hq hp) _ _⟩,
      .of_eq rfl rfl⟩

theorem loop_keeps (hinv : Inv s) {a : Action} (ha : a.ofLoop = true) (h : step s a = some s') :
    LoopKeeps s s' ∧ Grows s s' := by
  have hheld {p : Ptr} (hp : s.pc.sendPack = some p) : p ∉ s.made := by
    obtain ⟨_, _, _, hmade⟩ := hinv.queue_cons hp
    exact hmade
  cases a with
  | sendData p fd data => cases ha
  | push p => cases ha
  | front =>
    obtain ⟨-, h⟩ := Option.ite_none_right_eq_some.mp h
    obtain rfl := Option.some.inj h
    obtain ⟨hhanded, hrefused, hmade, hpushed, hheap⟩ := @front_eq s
    exact ⟨⟨hmade, hpushed, fun p _ => congrFun hheap p⟩, .of_eq hhanded hrefused⟩
  | send canWrite ret =>
    simp only [step] at h
    split at h
    · rename_i p hpc
      obtain ⟨sendPack, -, h⟩ := Option.bind_eq_some_iff.mp h
      exact send_keeps (hheld (by rw [hpc]; rfl)) h
    · cases h
  | pop =>
    simp only [step] at h
    split at h
    · rename_i p hpc
      exact pop_keeps (hheld (by rw [hpc]; rfl)) h
    · rename_i p hpc
      exact pop_keeps (hheld (by rw [hpc]; rfl)) h
    · cases h
  | select =>
    obtain ⟨-, h⟩ := Option.ite_none_right_eq_some.mp h
    obtain rfl := Option.some.inj h
    exact ⟨⟨rfl, rfl, fun _ _ => rfl⟩, .of_eq rfl rfl⟩

theorem Inv.setPc (h : Inv s) {pc : Pc} (hpc : pc.sendPack = none) : Inv { s with pc := pc } where
  distinct := h.distinct
  alive := h.alive
  unsent := h.unsent
  held := fun p hp => by
    dsimp only at hp
    rw [hpc] at hp
    cases hp
  sent := fun p heq => by
    dsimp only at heq
    rw [heq] at hpc
    cases hpc
  failed := fun p heq => by
    dsimp only at heq
    rw [heq] at hpc
    cases hpc
  bytes := h.bytes

/-- Only `send` hands bytes to the kernel. -/
theorem handed_eq {a : Action} (ha : ∀ canWrite ret, a ≠ .send canWrite ret)
    (h : step s a = some s') : s'.handed = s.handed := by
  cases a with
  | sendData p fd data =>
    rcases sendData_eq h with ⟨-, rfl⟩ | ⟨-, rfl⟩
    · rfl
    · rfl
  | push p =>
    obtain ⟨sendPack, -, -, rfl⟩ := push_eq h
    rfl
  | front =>
    obtain ⟨-, h⟩ := Option.ite_none_right_eq_some.mp h
    obtain rfl := Option.some.inj h
    exact front_eq.1
  | send canWrite ret => exact absurd rfl (ha canWrite ret)
  | pop =>
    have hpop {p : Ptr} {pc : Pc} (h : s.pop p pc = some s') : s'.handed = s.handed := by
      unfold Sys.pop at h
      split at h
      · cases h
      · obtain rfl := Option.some.inj h
        rfl
    simp only [step] at h
    split at h
    · exact hpop h
    · exact hpop h
    · cases h
  | select =>
    obtain ⟨-, h⟩ := Option.ite_none_right_eq_some.mp h
    obtain rfl := Option.some.inj h
    rfl

/-- And only those of the front pack. -/
theorem send_handed {canWrite : Bool} {ret : Int} (h : step s (.send canWrite ret) = some s') :
    ∃ fd, s.frontFd = some fd ∧ ∀ fd', fd' ≠ fd → s'.handed fd' = s.handed fd' := by
  simp only [step] at h
  split at h
  · rename_i p hpc
    obtain ⟨sendPack, hpack, h⟩ := Option.bind_eq_some_iff.mp h
    refine ⟨sendPack.fd, ?_, fun fd' hne => ?_⟩
    · simp only [Sys.frontFd, hpc, hpack, Option.map_some]
    · unfold Sys.send at h
      dsimp only at h
      split at h
      · obtain rfl := Option.some.inj h
        rfl
      split at h
      · obtain rfl := Option.some.inj h
        rfl
      split at h
      · cases h
      · obtain rfl := Option.some.inj h
        exact Function.update_of_ne hne _ _
  · cases h

theorem step_grows (hinv : Inv s) {a : Action} (h : step s a = some s') : Grows s s' := by
  cases a with
  | sendData p fd data =>
    rcases sendData_eq h with ⟨-, rfl⟩ | ⟨-, rfl⟩
    · exact .of_eq rfl rfl
    · exact .of_eq rfl rfl
  | push p =>
    obtain ⟨sendPack, -, -, rfl⟩ := push_eq h
    exact .of_eq rfl rfl
  | front => exact (loop_keeps hinv rfl h).2
  | send canWrite ret => exact (loop_keeps hinv rfl h).2
  | pop => exact (loop_keeps hinv rfl h).2
  | select => exact (loop_keeps hinv rfl h).2

end LocalSocket

end Hardcoder
