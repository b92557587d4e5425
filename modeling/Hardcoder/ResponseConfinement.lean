import Hardcoder.LocalSocket

/-! Whom a response reaches. A waiting response knows only a descriptor number; it is
for the right client as long as no new connection gets that number meanwhile. -/

namespace Hardcoder
open Stream Runs
set_option autoImplicit false

namespace LocalSocketServer

/-- The deed acts on the connection it is done for, or on none. -/
def Deed.Confined (d : Deed) : Prop := d.target = none ∨ d.target = d.cause

/-- A waiting response's descriptor is that of the connection it is for, or closed. -/
structure Confined (s : Sys) : Prop where
  targets : ∀ t ∈ s.targets, s.conns t.1 = none ∨ s.conns t.1 = t.2
  deeds : ∀ d ∈ s.deeds, d.Confined

/-- No connection is accepted under a number that a response still waits to be sent to. -/
def KeepsTargets (s : Sys) (a : Action) : Prop := ∀ fd ∈ a.accepts, ∀ t ∈ s.targets, t.1 ≠ fd

instance (s : Sys) (a : Action) : Decidable (KeepsTargets s a) :=
  inferInstanceAs (Decidable (∀ fd ∈ a.accepts, ∀ t ∈ s.targets, t.1 ≠ fd))

theorem confined_init (m_fd m_pipefd : Fd) : Confined (init m_fd m_pipefd) :=
  ⟨fun _ ht => by simp [Sys.targets, init] at ht, fun _ hd => by simp [init] at hd⟩

theorem Confined.front {s : Sys} (h : Confined s) {p : SendPack} (hp : p ∈ s.m_sendQueue) :
    s.conns p.fd = none ∨ s.conns p.fd = p.cause :=
  h.targets (p.fd, p.cause) (List.mem_append_left _ (List.mem_map_of_mem hp))

theorem closed_or_kept {s : Sys} (h : Confined s) {fd : Fd} {t : Fd × Option Conn}
    (ht : t ∈ s.targets) :
    Function.update s.conns fd none t.1 = none ∨ Function.update s.conns fd none t.1 = t.2 := by
  by_cases hfd : t.1 = fd
  · exact .inl (by rw [hfd, Function.update_self])
  · rw [Function.update_of_ne hfd]
    exact h.targets t ht

theorem targets_received {s : Sys} {i : Fd} {resps : Nat → Option (List UInt8)}
    {r : RecvResult Tagged} {t : Fd × Option Conn} (ht : t ∈ (s.received i resps r).targets) :
    t ∈ s.targets ∨ t = (i, s.conns i) := by
  simp only [Sys.targets, Sys.received, List.map_append, List.mem_append, List.mem_map,
    List.mem_filterMap] at ht ⊢
  rcases ht with ht | ht | ht | ⟨w, ⟨j, -, hw⟩, rfl⟩
  · exact .inl (.inl ht)
  · exact .inl (.inr (.inl ht))
  · exact .inl (.inr (.inr ht))
  · obtain ⟨resp, -, rfl⟩ := Option.map_eq_some_iff.mp hw
    exact .inr rfl

theorem targets_notified {s : Sys} {fd : Fd} {resp : List UInt8} {t : Fd × Option Conn}
    (ht : t ∈ Sys.targets { s with respQueue := s.respQueue ++ [⟨fd, resp, s.conns fd⟩] }) :
    t ∈ s.targets ∨ t = (fd, s.conns fd) := by
  simp only [Sys.targets, List.map_append, List.map_singleton, List.mem_append,
    List.mem_singleton] at ht ⊢
  rcases ht with ht | ht | ht | rfl
  · exact .inl (.inl ht)
  · exact .inl (.inr (.inl ht))
  · exact .inl (.inr (.inr ht))
  · exact .inr rfl

theorem Confined.step {s s' : Sys} {a : Action} (h : Confined s) (hkeep : KeepsTargets s a)
    (hstep : step s a = some s') : Confined s' := by
  cases step_effect hstep with
  | quiet hconns _ _ hdeeds htargets =>
    refine ⟨fun t ht => ?_, fun d hd => h.deeds d (hdeeds ▸ hd)⟩
    rw [hconns]
    exact h.targets t (htargets t ht)
  | sent p hp hconns _ _ hdeeds htargets =>
    refine ⟨fun t ht => ?_, fun d hd => ?_⟩
    · rw [hconns]
      exact h.targets t (htargets t ht)
    · rw [hdeeds] at hd
      rcases List.mem_append.mp hd with hd | hd
      · exact h.deeds d hd
      · obtain rfl := List.mem_singleton.mp hd
        exact h.front hp
  | sendFailed p hp hconns _ _ hdeeds htargets =>
    refine ⟨fun t ht => ?_, fun d hd => ?_⟩
    · rw [hconns]
      exact closed_or_kept h (htargets t ht)
    · rw [hdeeds] at hd
      rcases List.mem_append.mp hd with hd | hd
      · exact h.deeds d hd
      · rcases List.mem_pair.mp hd with rfl | rfl <;> exact h.front hp
  | accepted fd uid _ hconns _ _ hdeeds htargets =>
    refine ⟨fun t ht => ?_, fun d hd => h.deeds d (hdeeds ▸ hd)⟩
    rw [htargets] at ht
    rw [hconns, Function.update_of_ne (hkeep fd rfl t ht)]
    exact h.targets t ht
  | recvError i hconns _ _ hdeeds htargets =>
    refine ⟨fun t ht => ?_, fun d hd => ?_⟩
    · rw [htargets] at ht
      rw [hconns]
      exact closed_or_kept h ht
    · rw [hdeeds] at hd
      rcases List.mem_append.mp hd with hd | hd
      · exact h.deeds d hd
      · obtain rfl := List.mem_singleton.mp hd
        exact .inr rfl
  | received i tmpSet c bytes beyond resps fuel r _ _ _ _ hs' =>
    subst hs'
    refine ⟨fun t ht => ?_, h.deeds⟩
    have htargets : t ∈ (s.received i resps r).targets := ht
    rcases targets_received htargets with ht | rfl
    · exact h.targets t ht
    · exact .inr rfl
  | notified fd resp hs' =>
    subst hs'
    refine ⟨fun t ht => ?_, h.deeds⟩
    rcases targets_notified ht with ht | rfl
    · exact h.targets t ht
    · exact .inr rfl

/-- In a run that accepts no connection under the number of a waiting response, every
`send` and `close` acts on the connection it is done for, or on a closed descriptor. -/
theorem responseConfinement {m_fd m_pipefd : Fd} {as : List Action} {s : Sys}
    (hrun : run step (init m_fd m_pipefd) as = some s)
    (hkeep : Along step KeepsTargets (init m_fd m_pipefd) as) : ∀ d ∈ s.deeds, d.Confined :=
  (run_invariant Confined.step (confined_init m_fd m_pipefd) hkeep hrun).deeds

/-- A client connects, sends a request and leaves. -/
def visit : List Action :=
  loopPass 5 (.accept (some (6, 0))) ++
    (loopPass 6 (.recv emptyRequest (fun _ => 0) (fun _ => some [1]) 2) ++ loopPass 6 .recvError)

theorem responseConfinement_visit : ∃ s,
    run step (init 5 3) (visit ++ [.popResp, .sendData, .send true (-1)]) = some s ∧
    ∀ d ∈ s.deeds, d.Confined := by
  have hsome : (run step (init 5 3) (visit ++ [.popResp, .sendData, .send true (-1)])).isSome :=
    rfl
  obtain ⟨s, hs⟩ := Option.isSome_iff_exists.mp hsome
  exact ⟨s, hs, responseConfinement hs (along_of_check rfl)⟩

/-- The response to the first client still waits when a second one gets its number: it
is sent to the second, and the second is closed when that fails. -/
theorem responseConfinement_reuse : ∃ s,
    run step (init 5 3) (visit ++ (loopPass 5 (.accept (some (6, 1))) ++
      [.popResp, .sendData, .send true (-1)])) = some s ∧
    ⟨.send, some 0, some 1⟩ ∈ s.deeds ∧ ⟨.close, some 0, some 1⟩ ∈ s.deeds ∧
    ¬ ∀ d ∈ s.deeds, d.Confined := by
  have hdeeds : (run step (init 5 3) (visit ++ (loopPass 5 (.accept (some (6, 1))) ++
      [.popResp, .sendData, .send true (-1)]))).map (·.deeds) =
      some [⟨.close, some 0, some 0⟩, ⟨.send, some 0, some 1⟩, ⟨.close, some 0, some 1⟩] := rfl
  obtain ⟨s, hs, hthree⟩ := Option.map_eq_some_iff.mp hdeeds
  have hsend : ⟨.send, some 0, some 1⟩ ∈ s.deeds := by simp [hthree]
  refine ⟨s, hs, hsend, by simp [hthree], fun hall => ?_⟩
  rcases hall _ hsend with h | h <;> cases h

end LocalSocketServer

end Hardcoder
