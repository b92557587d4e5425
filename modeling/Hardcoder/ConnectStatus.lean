import Hardcoder.ClientEngines

/-! What `HardCoderJNI.connect` says of the client's engine. A status waits in the queue of
the callback thread, which drops what it pops while the client is disabled; `setEnable`
restarts the engine before it assigns `m_enable`. -/

namespace Hardcoder
open Runs HardCoderJNI
set_option autoImplicit false

namespace Client

/-- A status that sets `connect` was reported while the installed engine was running; after
a successful `tryStartEngine` and up to the next disconnect, `connect` is set once the
queue is empty. -/
structure Agrees (s : Sys) : Prop where
  reported : ∀ m ∈ s.reported, connected false m.info = true → m.running = true
  drained : s.up = true → s.queue = [] → s.connect = true

instance (s : Sys) (o : Outcome) : Decidable (s.Connects o) :=
  decidable_of_iff (¬ (s.m_remote = [] ∨ (s.m_port.toInt ≤ 0 ∧ s.m_local = [])) ∧
      ¬ s.isRunning = true ∧ ¬ o.curr - s.m_lastConnect < s.m_retryConnectInterval.toInt * 1000)
    ⟨fun h => ⟨h.1, h.2.1, h.2.2⟩, fun h => ⟨h.params, h.stopped, h.interval⟩⟩

/-- The thread of a new local socket lasts until its connection is reported. -/
def Sys.Lasts (s : Sys) (o : Outcome) : Prop :=
  s.Connects o → 0 < o.socket.toInt → s.m_port = 0 → o.ends ≠ .beforeCallback

instance (s : Sys) (o : Outcome) : Decidable (s.Lasts o) := by
  unfold Sys.Lasts
  infer_instance

/-- A connection is reported while the engine is running, and `init` again finds it running;
a connect status is not popped while the client is disabled, unless `connect` is set. -/
def Heard (s : Sys) : Action → Prop
  | .init remote port localpath o =>
    (s.m_pClientEngine.isSome → s.isRunning = true) ∧
      (s.m_pClientEngine = none → (s.configure remote port localpath).Lasts o)
  | .engine o => s.m_enable ≠ 0 → s.isRunning = false → s.Lasts o
  | .setEnable enableFlag o => s.enabling = none → s.m_enable = 0 → enableFlag ≠ 0 → s.Lasts o
  | .callbackThread => ∀ m ∈ s.queue.head?, m.info = status ERR_CLIENT_CONNECT →
      s.m_enable ≠ 0 ∨ s.connect = true
  | _ => True

instance (s : Sys) (a : Action) : Decidable (Heard s a) :=
  match a with
  | .init remote port localpath o => inferInstanceAs (Decidable
      ((s.m_pClientEngine.isSome → s.isRunning = true) ∧
        (s.m_pClientEngine = none → (s.configure remote port localpath).Lasts o)))
  | .engine o => inferInstanceAs (Decidable (s.m_enable ≠ 0 → s.isRunning = false → s.Lasts o))
  | .setEnable enableFlag o => inferInstanceAs (Decidable
      (s.enabling = none → s.m_enable = 0 → enableFlag ≠ 0 → s.Lasts o))
  | .callbackThread => inferInstanceAs (Decidable (∀ m ∈ s.queue.head?,
      m.info = status ERR_CLIENT_CONNECT → s.m_enable ≠ 0 ∨ s.connect = true))
  | .enabled | .setRetryConnectInterval _ | .threadEnds _ | .callback _ => .isTrue trivial

/-- The messages leave a `connect` that is set as it is. -/
def Keeping (queue : List Callback) : Prop := ∀ m ∈ queue, connected true m.info = true

/-- Where a queue leads to a `connect` that is set, whatever the callback thread drops but
the connect status itself. -/
def Connecting (connect : Bool) (queue : List Callback) : Prop :=
  (connect = true ∧ Keeping queue) ∨
    ∃ before m after, queue = before ++ m :: after ∧ m.info = status ERR_CLIENT_CONNECT ∧
      Keeping after

structure StatusInv (s : Sys) : Prop where
  reported : ∀ m ∈ s.reported, connected false m.info = true → m.running = true
  connecting : s.up = true → Connecting s.connect s.queue

theorem connected_connect (connect : Bool) : connected connect (status ERR_CLIENT_CONNECT) = true := by
  cases connect <;> decide

theorem connected_alreadyInit : connected true (status ERR_CLIENT_ALREADY_INIT) = true := by decide

theorem connected_disconnect : connected false (status ERR_CLIENT_DISCONNECT) = false := by decide

theorem connected_other {connect : Bool} {info : C2JavaCall}
    (h : ¬ (info.callbackType = CALLBACK_TYPE_STATUS ∧ info.funcid = FUNC_LOCAL)) :
    connected connect info = connect :=
  if_neg h

namespace Connecting
variable {connect : Bool} {queue : List Callback} {m : Callback}

theorem push (h : Connecting connect queue) (hm : connected true m.info = true) :
    Connecting connect (queue ++ [m]) := by
  have happend {q : List Callback} (hq : Keeping q) : Keeping (q ++ [m]) := by
    intro x hx
    rcases List.mem_append.mp hx with hx | hx
    · exact hq x hx
    · rwa [List.mem_singleton.mp hx]
  rcases h with ⟨hconnect, hkeep⟩ | ⟨before, c, after, rfl, hc, hkeep⟩
  · exact .inl ⟨hconnect, happend hkeep⟩
  · exact .inr ⟨before, c, after ++ [m], by rw [List.append_assoc, List.cons_append], hc,
      happend hkeep⟩

theorem connect_last (connect : Bool) (queue : List Callback)
    (hm : m.info = status ERR_CLIENT_CONNECT) : Connecting connect (queue ++ [m]) :=
  .inr ⟨queue, m, [], rfl, hm, fun _ h => nomatch h⟩

theorem pop {connect' : Bool} (h : Connecting connect (m :: queue))
    (hpop : connect' = connected connect m.info ∨
      (connect' = connect ∧ (m.info = status ERR_CLIENT_CONNECT → connect = true))) :
    Connecting connect' queue := by
  rcases h with ⟨hconnect, hkeep⟩ | ⟨before, c, after, hqueue, hc, hkeep⟩
  · refine .inl ⟨?_, fun x hx => hkeep x (List.mem_cons_of_mem _ hx)⟩
    rcases hpop with rfl | ⟨rfl, -⟩
    · rw [hconnect]
      exact hkeep m List.mem_cons_self
    · exact hconnect
  · cases before with
    | nil =>
      obtain ⟨rfl, rfl⟩ := List.cons.inj hqueue
      refine .inl ⟨?_, hkeep⟩
      rcases hpop with rfl | ⟨rfl, hlost⟩
      · rw [hc, connected_connect]
      · exact hlost hc
    | cons b before =>
      obtain ⟨rfl, rfl⟩ := List.cons.inj hqueue
      exact .inr ⟨before, c, after, rfl, hc, hkeep⟩

end Connecting

section Status
variable {s s' : Sys} {o : Outcome}

theorem statusInv_init : StatusInv init where
  reported := fun _ h => nomatch h
  connecting := fun h => nomatch h

namespace StatusInv

theorem agrees (h : StatusInv s) : Agrees s := by
  refine ⟨h.reported, fun hup hqueue => ?_⟩
  rcases h.connecting hup with ⟨hconnect, -⟩ | ⟨before, m, after, hsplit, -⟩
  · exact hconnect
  · rw [hqueue] at hsplit
    exact absurd hsplit.symm (List.append_ne_nil_of_right_ne_nil _ (List.cons_ne_nil _ _))

theorem reported_append (h : StatusInv s) {m : Callback}
    (hm : connected false m.info = true → m.running = true) :
    ∀ x ∈ s.reported ++ [m], connected false x.info = true → x.running = true := by
  intro x hx
  rcases List.mem_append.mp hx with hx | hx
  · exact h.reported x hx
  · rwa [List.mem_singleton.mp hx]

theorem tryStartEngine (h : StatusInv s) (hlasts : s.Lasts o) :
    StatusInv (s.tryStartEngine o).1 := by
  by_cases hc : s.Connects o
  · rw [Sys.tryStartEngine_connects hc]
    by_cases hinstalled : 0 < o.socket.toInt ∧ s.m_port = 0 ∧ o.ends ≠ .beforeCheck
    · obtain ⟨hsocket, hport, hends⟩ := hinstalled
      have hrunning : (o.ends != .beforeCallback) = true := bne_iff_ne.mpr (hlasts hc hsocket hport)
      rw [Sys.newEngine_installed (s := s.disposed o.curr) hsocket hport hends]
      exact ⟨h.reported_append fun _ => hrunning, fun _ => Connecting.connect_last _ _ rfl⟩
    · rw [Sys.newEngine_failed (s := s.disposed o.curr) hinstalled]
      exact ⟨h.reported, h.connecting⟩
  · obtain ⟨ret, -, hret⟩ := Sys.tryStartEngine_refused hc
    rw [hret]
    exact h

theorem disconnected (h : StatusInv s) : StatusInv s.disconnected := by
  unfold Sys.disconnected
  split
  · refine ⟨h.reported_append fun hset => ?_, fun hup => nomatch hup⟩
    rw [connected_disconnect] at hset
    cases hset
  · exact h

theorem lasts_disconnected : s.disconnected.Lasts o ↔ s.Lasts o := by
  unfold Sys.Lasts
  rw [Sys.connects_disconnected, Sys.disconnected_m_port]

theorem step (h : StatusInv s) {a : Action} (hheard : Heard s a) (hstep : step s a = some s') :
    StatusInv s' := by
  cases a with
  | init remote port localpath o =>
    obtain rfl := Option.some.inj hstep
    obtain ⟨hagain, hfirst⟩ := hheard
    unfold Sys.init
    split
    · rename_i hsome
      exact ⟨h.reported_append fun _ => hagain hsome,
        fun hup => (h.connecting hup).push connected_alreadyInit⟩
    · rename_i hnone
      have hconfigured : StatusInv (s.configure remote port localpath) :=
        ⟨h.reported, h.connecting⟩
      exact hconfigured.tryStartEngine (hfirst (Option.not_isSome_iff_eq_none.mp hnone))
  | engine o =>
    obtain rfl := Option.some.inj hstep
    by_cases henable : s.m_enable = 0
    · rw [Sys.engine, if_pos henable]
      exact h
    · cases hrunning : s.isRunning with
      | true =>
        rw [Sys.engine, if_neg henable, if_pos hrunning]
        exact h
      | false =>
        rw [Sys.engine_fst henable hrunning]
        exact h.disconnected.tryStartEngine (lasts_disconnected.mpr (hheard henable hrunning))
  | setEnable enableFlag o =>
    obtain ⟨henabling, hstep⟩ := Option.ite_none_right_eq_some.mp hstep
    obtain rfl := Option.some.inj hstep
    unfold Sys.setEnable
    split
    · rename_i hrestart
      have hstart := h.tryStartEngine (hheard henabling hrestart.1 hrestart.2)
      exact ⟨hstart.reported, hstart.connecting⟩
    · exact ⟨h.reported, h.connecting⟩
  | enabled =>
    obtain ⟨enableFlag, -, rfl⟩ := Option.map_eq_some_iff.mp hstep
    exact ⟨h.reported, h.connecting⟩
  | setRetryConnectInterval retryConnectInterval =>
    obtain rfl := Option.some.inj hstep
    unfold Sys.setRetryConnectInterval
    split
    · exact ⟨h.reported, h.connecting⟩
    · exact h
  | threadEnds e =>
    obtain ⟨-, hstep⟩ := Option.ite_none_right_eq_some.mp hstep
    obtain rfl := Option.some.inj hstep
    exact ⟨h.reported, h.connecting⟩
  | callback info =>
    obtain ⟨hother, hstep⟩ := Option.ite_none_left_eq_some.mp hstep
    obtain rfl := Option.some.inj hstep
    exact ⟨h.reported, fun hup => (h.connecting hup).push (connected_other hother)⟩
  | callbackThread =>
    obtain ⟨m, queue, hqueue, rfl⟩ := step_callbackThread hstep
    refine ⟨h.reported, fun hup => ?_⟩
    have hconnecting := h.connecting hup
    rw [hqueue] at hconnecting
    refine hconnecting.pop ?_
    by_cases henable : s.m_enable = 0
    · refine .inr ⟨if_neg (not_not.mpr henable), fun hm => ?_⟩
      exact (hheard m (by rw [hqueue]; rfl) hm).resolve_left (not_not.mpr henable)
    · exact .inl (if_pos henable)

end StatusInv

/-- In a run in which the connect statuses are heard, `connect` agrees with the engine. -/
theorem connectStatus_of_heard {as : List Action} (hrun : run step init as = some s)
    (hheard : Along step Heard init as) : Agrees s :=
  (run_invariant (fun h hheard hstep => h.step hheard hstep) statusInv_init hheard hrun).agrees

end Status

/-- `initHardCoder` with a local socket, thirty seconds after the epoch or later. -/
def localInit (curr : Int) (socket : JInt) : Action :=
  .init (some [104]) 0 (some [108]) ⟨curr, socket, .later⟩

/-- A run that connects, and is disabled and enabled again. -/
def reenabled : List Action :=
  [localInit 30000 9, .callbackThread, .setEnable 0 ⟨40000, 9, .later⟩, .enabled,
    .setEnable 1 ⟨50000, 9, .later⟩, .enabled]

theorem connectStatus_of_heard_reenabled : ∃ s, run step init reenabled = some s ∧ Agrees s := by
  have hsome : (run step init reenabled).isSome := by decide +kernel
  obtain ⟨s, hs⟩ := Option.isSome_iff_exists.mp hsome
  exact ⟨s, hs, connectStatus_of_heard hs (along_of_check (by decide +kernel))⟩

/-- The socket fails at first, and the client is disabled. Enabling it connects, but the
callback thread pops the connect status too soon. -/
def lostConnect : List Action :=
  [localInit 30000 (-1), .setEnable 0 ⟨40000, 9, .later⟩, .enabled,
    .setEnable 1 ⟨60000, 9, .later⟩, .callbackThread, .enabled]

/-- The connect status is lost on enabling; and a client whose engine has stopped reports
that it is initialised already, which sets `connect`. -/
theorem connectStatus_lost :
    (∃ s, run step init lostConnect = some s ∧ s.m_enable = 1 ∧ s.isRunning = true ∧
      s.queue = [] ∧ s.connect = false ∧ ¬ Agrees s) ∧
    ∃ s, run step init [localInit 30000 9, .threadEnds 0, localInit 70000 9] = some s ∧
      s.isRunning = false ∧ ¬ Agrees s := by
  constructor
  · have hrun : (run step init lostConnect).map (fun s => (s.m_enable, s.isRunning, s.queue,
        s.connect, s.up)) = some (1, true, [], false, true) := by decide +kernel
    obtain ⟨s, hs, hstate⟩ := Option.map_eq_some_iff.mp hrun
    simp only [Prod.mk.injEq] at hstate
    obtain ⟨henable, hrunning, hqueue, hconnect, hup⟩ := hstate
    refine ⟨s, hs, henable, hrunning, hqueue, hconnect, fun h => ?_⟩
    exact Bool.noConfusion (hconnect.symm.trans (h.drained hup hqueue))
  · have hrun : (run step init [localInit 30000 9, .threadEnds 0, localInit 70000 9]).map
        (fun s => (s.isRunning, s.reported)) = some (false, [⟨status ERR_CLIENT_CONNECT, true⟩,
          ⟨status ERR_CLIENT_ALREADY_INIT, false⟩]) := by decide +kernel
    obtain ⟨s, hs, hstate⟩ := Option.map_eq_some_iff.mp hrun
    simp only [Prod.mk.injEq] at hstate
    obtain ⟨hrunning, hreported⟩ := hstate
    refine ⟨s, hs, hrunning, fun h => ?_⟩
    have hlast := h.reported ⟨status ERR_CLIENT_ALREADY_INIT, false⟩
      (by rw [hreported]; decide) (by decide)
    cases hlast

end Client
end Hardcoder
