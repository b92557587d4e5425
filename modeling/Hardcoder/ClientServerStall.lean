import Hardcoder.ClientServerFlood

/-! The server is blocked for good just when its two threads wait for each other's queues. -/

namespace Hardcoder
open Stream Runs
set_option autoImplicit false

namespace LocalSocket
variable {s s' : Sys}

/-- The allocator never runs out of addresses. -/
theorem step_free {n : Ptr} (hfree : ∀ p, n ≤ p → s.heap p = none) {a : Action}
    (h : step s a = some s') : ∃ n, ∀ p, n ≤ p → s'.heap p = none := by
  have hupdate {p : Ptr} {v : Option SendPack} :
      ∃ n, ∀ q, n ≤ q → Function.update s.heap p v q = none := by
    refine ⟨max n (p + 1), fun q hq => ?_⟩
    obtain ⟨hn, hp⟩ := Nat.max_le.mp hq
    rw [Function.update_of_ne (Nat.ne_of_gt hp)]
    exact hfree q hn
  cases a with
  | sendData p fd data =>
    rcases sendData_eq h with ⟨-, rfl⟩ | ⟨-, rfl⟩
    · exact ⟨n, hfree⟩
    · exact hupdate
  | push p =>
    obtain ⟨sendPack, -, -, rfl⟩ := push_eq h
    exact ⟨n, hfree⟩
  | front =>
    obtain ⟨-, h⟩ := Option.ite_none_right_eq_some.mp h
    obtain rfl := Option.some.inj h
    rw [(front_eq (s := s)).2.2.2.2]
    exact ⟨n, hfree⟩
  | send canWrite ret =>
    simp only [step] at h
    split at h
    · obtain ⟨sendPack, -, h⟩ := Option.bind_eq_some_iff.mp h
      unfold Sys.send at h
      dsimp only at h
      split at h
      · obtain rfl := Option.some.inj h
        exact ⟨n, hfree⟩
      split at h
      · obtain rfl := Option.some.inj h
        exact ⟨n, hfree⟩
      split at h
      · cases h
      · obtain rfl := Option.some.inj h
        exact hupdate
    · cases h
  | pop =>
    have hpop {p : Ptr} {pc : Pc} (h : s.pop p pc = some s') : ∃ n, ∀ p, n ≤ p → s'.heap p = none := by
      unfold Sys.pop at h
      split at h
      · cases h
      · obtain rfl := Option.some.inj h
        exact hupdate
    simp only [step] at h
    split at h
    · exact hpop h
    · exact hpop h
    · cases h
  | select =>
    obtain ⟨-, h⟩ := Option.ite_none_right_eq_some.mp h
    obtain rfl := Option.some.inj h
    exact ⟨n, hfree⟩

/-- Before it leaves, the thread in `loop` can take a step, and on any descriptor `send` may fail. -/
theorem exists_loop (h : Inv s) (hpc : s.pc ≠ .left) :
    ∃ a t, a.ofLoop = true ∧ step s a = some t ∧ ∀ canWrite ret, a = .send canWrite ret →
      canWrite = true ∧ ret < 0 := by
  have hqueue {p : Ptr} (hp : s.pc.sendPack = some p) : ∃ queue, s.m_sendQueue = p :: queue := by
    obtain ⟨queue, hqueue, -⟩ := h.queue_cons hp
    exact ⟨queue, hqueue⟩
  cases hs : s.pc with
  | top =>
    exact ⟨.front, s.front, rfl, if_pos hs, fun _ _ => Action.noConfusion⟩
  | front p =>
    obtain ⟨queue, hqueue⟩ := hqueue (by rw [hs]; rfl : s.pc.sendPack = some p)
    obtain ⟨sendPack, hpack⟩ := Option.ne_none_iff_exists'.mp
      (h.alive p (by rw [hqueue]; exact List.mem_cons_self))
    refine ⟨.send true (-1), { s with
      refused := sendPack.fd :: s.refused
      pc := if sendPack.fd = s.m_fd then .left else .failed p }, rfl, ?_, fun canWrite ret heq => ?_⟩
    · simp only [step, hs, hpack]
      rfl
    · obtain ⟨rfl, rfl⟩ := Action.send.inj heq
      exact ⟨rfl, by decide⟩
  | sent p =>
    obtain ⟨queue, hqueue⟩ := hqueue (by rw [hs]; rfl : s.pc.sendPack = some p)
    refine ⟨.pop, { s with
      m_sendQueue := queue
      heap := Function.update s.heap p none
      pc := .select }, rfl, ?_, fun _ _ => Action.noConfusion⟩
    simp only [step, hs, Sys.pop, hqueue]
  | failed p =>
    obtain ⟨queue, hqueue⟩ := hqueue (by rw [hs]; rfl : s.pc.sendPack = some p)
    refine ⟨.pop, { s with
      m_sendQueue := queue
      heap := Function.update s.heap p none
      pc := .top }, rfl, ?_, fun _ _ => Action.noConfusion⟩
    simp only [step, hs, Sys.pop, hqueue]
  | select => exact ⟨.select, _, rfl, if_pos hs, fun _ _ => Action.noConfusion⟩
  | left => exact absurd hs hpc

end LocalSocket

namespace ClientServer
open LocalSocket (Fd Ptr)
open LocalSocketServer (Conn)

/-- The steps of the thread in `loop` of the server and of the response thread. -/
def Action.ofServer : Action → Bool
  | .server _ | .accept _ | .recv .. | .hangUp _ | .process _ | .push | .respond _ | .pushPack _ => true
  | .sendReq .. | .client .. | .take .. | .lose _ | .notify .. => false

/-- Neither thread ever goes on again, whatever the clients and the system do. -/
def Blocked (S : Setting) (s : Sys) : Prop :=
  ∀ bs t, run (step S) s bs = some t → ∀ a, a.ofServer = true → step S t a = none

variable {S : Setting} {c : Conn} {fd : Fd} {s s' : Sys}

section Stalled

theorem Stalled.server_none (h : Stalled s) {a : Action} (ha : a.ofServer = true) : step S s a = none := by
  have hfree : ¬ s.Free := fun hfree => h.pushing hfree.2
  cases a with
  | sendReq c p r => cases ha
  | client c a => cases ha
  | take c n beyond => cases ha
  | lose c => cases ha
  | notify env uid funcid data => cases ha
  | server a => exact if_neg fun hguard => hfree hguard.1
  | accept r => exact if_neg fun hguard => hfree hguard.1
  | recv fd n beyond =>
    rw [step, Sys.recv]
    cases s.conns fd with
    | none => rfl
    | some c => exact if_neg fun hguard => hfree hguard.1
  | hangUp fd => exact if_neg fun hguard => hfree hguard.1
  | process env =>
    rw [step, Sys.process]
    split
    · rfl
    · exact if_neg fun hguard => h.pushing hguard.1
  | push =>
    obtain ⟨e, he⟩ := Option.ne_none_iff_exists'.mp h.pushing
    rw [step, Sys.push, he, Option.bind_some]
    exact if_neg (Nat.not_lt.mpr h.respQueue)
  | respond p =>
    rw [step, Sys.respond]
    split
    · rfl
    · exact if_neg h.made
  | pushPack p =>
    have hfull : ¬ (p ∈ s.socket.made ∧ s.socket.m_sendQueue.length < LocalSocket.queuelen) :=
      fun hroom => Nat.not_lt.mpr h.m_sendQueue hroom.2
    rw [step, Sys.pushPack, LocalSocket.step, LocalSocket.Sys.push, if_neg hfull, Option.map_none]

/-- What the other threads do to the server. -/
structure Aside (s s' : Sys) : Prop where
  socket : s'.socket = s.socket
  pushing : s'.pushing = s.pushing
  respQueue : s'.respQueue = s.respQueue ∨ s.respQueue.length < Rqueue.bound 0 ∧
    ∃ e, s'.respQueue = s.respQueue ++ [e]

theorem aside_update {peer : Peer} : Aside s (s.update c peer) := ⟨rfl, rfl, .inl rfl⟩

theorem aside {a : Action} (ha : a.ofServer = false) (hs : step S s a = some s') : Aside s s' := by
  cases a with
  | sendReq c p r =>
    simp only [step, Sys.sendReq] at hs
    split at hs
    · obtain ⟨socket, -, rfl⟩ := Option.map_eq_some_iff.mp hs
      exact aside_update
    · obtain rfl := Option.some.inj hs
      exact ⟨rfl, rfl, .inl rfl⟩
  | client c a =>
    cases a with
    | sendData p fd data => cases hs
    | push p =>
      obtain ⟨socket, -, rfl⟩ := Option.map_eq_some_iff.mp hs
      exact aside_update
    | front =>
      obtain ⟨socket, -, rfl⟩ := Option.map_eq_some_iff.mp hs
      exact aside_update
    | send canWrite ret =>
      obtain ⟨socket, -, rfl⟩ := Option.map_eq_some_iff.mp hs
      exact aside_update
    | pop =>
      obtain ⟨socket, -, rfl⟩ := Option.map_eq_some_iff.mp hs
      exact aside_update
    | select =>
      obtain ⟨socket, -, rfl⟩ := Option.map_eq_some_iff.mp hs
      exact aside_update
  | take c n beyond =>
    obtain ⟨-, hs⟩ := Option.ite_none_right_eq_some.mp hs
    obtain ⟨r, -, rfl⟩ := Option.map_eq_some_iff.mp hs
    exact aside_update
  | lose c =>
    obtain ⟨-, hs⟩ := Option.ite_none_right_eq_some.mp hs
    obtain rfl := Option.some.inj hs
    exact aside_update
  | notify env uid funcid data =>
    obtain ⟨fd, -, hs⟩ := Option.bind_eq_some_iff.mp hs
    obtain ⟨-, hs⟩ := Option.ite_none_right_eq_some.mp hs
    obtain ⟨hroom, hs⟩ := Option.ite_none_right_eq_some.mp hs
    obtain rfl := Option.some.inj hs
    rw [note_eq]
    exact ⟨rfl, rfl, .inr ⟨hroom, _, rfl⟩⟩
  | server a => cases ha
  | accept r => cases ha
  | recv fd n beyond => cases ha
  | hangUp fd => cases ha
  | process env => cases ha
  | push => cases ha
  | respond p => cases ha
  | pushPack p => cases ha

theorem Stalled.step (h : Stalled s) {a : Action} (hs : ClientServer.step S s a = some s') :
    Stalled s' := by
  cases ha : a.ofServer with
  | true => cases (h.server_none ha).symm.trans hs
  | false =>
    obtain ⟨hsocket, hpushing, hqueue⟩ := aside ha hs
    rcases hqueue with hqueue | ⟨hroom, -⟩
    · refine ⟨?_, ?_, ?_, ?_⟩
      · rw [hpushing]
        exact h.pushing
      · rw [hqueue]
        exact h.respQueue
      · rw [hsocket]
        exact h.made
      · rw [hsocket]
        exact h.m_sendQueue
    · exact absurd hroom (Nat.not_lt.mpr h.respQueue)

theorem Stalled.blocked (h : Stalled s) : Blocked S s := by
  intro bs t hbs a ha
  have hstalled : Stalled t :=
    @run_invariant _ _ (ClientServer.step S) (fun _ _ => True) Stalled
      (fun h _ hs => h.step hs) bs _ _ h (along_of_forall fun _ _ => trivial) hbs
  exact hstalled.server_none ha

end Stalled

section Running

theorem sent_socket (socket : LocalSocket.Sys) : (s.sent socket).socket = socket := by
  unfold Sys.sent
  split
  · rfl
  split
  · rfl
  · rfl

theorem popped_socket (socket : LocalSocket.Sys) : (s.popped socket).socket = socket := by
  unfold Sys.popped
  split
  · rfl
  · rfl

/-- What a step does to the server's `LocalSocket`. -/
theorem socket_step {a : Action} (hs : step S s a = some s') :
    s'.socket = s.socket ∨ (∃ a, LocalSocket.step s.socket a = some s'.socket) ∨
      ∃ pc, pc.sendPack = none ∧ s'.socket = { s.socket with pc := pc } := by
  cases ha : a.ofServer with
  | false => exact .inl (aside ha hs).socket
  | true =>
    cases a with
    | sendReq c p r => cases ha
    | client c a => cases ha
    | take c n beyond => cases ha
    | lose c => cases ha
    | notify env uid funcid data => cases ha
    | server a =>
      obtain ⟨-, hs⟩ := Option.ite_none_right_eq_some.mp hs
      obtain ⟨socket, hstep, rfl⟩ := Option.map_eq_some_iff.mp hs
      refine .inr (.inl ⟨a, ?_⟩)
      cases a with
      | sendData p fd data => exact hstep
      | push p => exact hstep
      | front => exact hstep
      | send canWrite ret => exact hstep.trans (congrArg some (sent_socket socket).symm)
      | pop => exact hstep.trans (congrArg some (popped_socket socket).symm)
      | select => exact hstep
    | accept r =>
      obtain ⟨-, hs⟩ := Option.ite_none_right_eq_some.mp hs
      refine .inr (.inr ?_)
      cases r with
      | none =>
        obtain rfl := Option.some.inj hs
        exact ⟨.left, rfl, rfl⟩
      | some fd =>
        obtain ⟨-, hs⟩ := Option.ite_none_right_eq_some.mp hs
        obtain rfl := Option.some.inj hs
        refine ⟨if fd = 0 then .left else .select, ?_, rfl⟩
        split
        · rfl
        · rfl
    | recv fd n beyond =>
      obtain ⟨c, -, hs⟩ := Option.bind_eq_some_iff.mp hs
      obtain ⟨-, hs⟩ := Option.ite_none_right_eq_some.mp hs
      obtain ⟨r, -, rfl⟩ := Option.map_eq_some_iff.mp hs
      exact .inl rfl
    | hangUp fd =>
      obtain ⟨-, hs⟩ := Option.ite_none_right_eq_some.mp hs
      obtain rfl := Option.some.inj hs
      exact .inl rfl
    | process env =>
      simp only [step, Sys.process] at hs
      split at hs
      · cases hs
      obtain ⟨-, hs⟩ := Option.ite_none_right_eq_some.mp hs
      obtain rfl := Option.some.inj hs
      exact .inl rfl
    | push =>
      obtain ⟨e, -, hs⟩ := Option.bind_eq_some_iff.mp hs
      obtain ⟨-, hs⟩ := Option.ite_none_right_eq_some.mp hs
      obtain rfl := Option.some.inj hs
      rw [note_eq]
      exact .inl rfl
    | respond p =>
      simp only [step, Sys.respond] at hs
      split at hs
      · cases hs
      obtain ⟨-, hs⟩ := Option.ite_none_right_eq_some.mp hs
      obtain ⟨socket, hstep, rfl⟩ := Option.map_eq_some_iff.mp hs
      exact .inr (.inl ⟨_, hstep⟩)
    | pushPack p =>
      obtain ⟨socket, hstep, rfl⟩ := Option.map_eq_some_iff.mp hs
      exact .inr (.inl ⟨_, hstep⟩)

/-- The packs are where the pointers say, and the allocator has addresses left. -/
structure Running (s : Sys) : Prop where
  queue : LocalSocket.Inv s.socket
  free : ∃ n, ∀ p, n ≤ p → s.socket.heap p = none

theorem Running.step (h : Running s) {a : Action} (hs : ClientServer.step S s a = some s') :
    Running s' := by
  rcases socket_step hs with hsame | ⟨a, hstep⟩ | ⟨pc, hpc, hsocket⟩
  · refine ⟨?_, ?_⟩
    · rw [hsame]
      exact h.queue
    · rw [hsame]
      exact h.free
  · obtain ⟨n, hfree⟩ := h.free
    exact ⟨h.queue.step hstep, LocalSocket.step_free hfree hstep⟩
  · refine ⟨?_, ?_⟩
    · rw [hsocket]
      exact h.queue.setPc hpc
    · rw [hsocket]
      exact h.free

/-- Unless it is stalled, one of the two threads can go on. -/
theorem Running.goesOn (h : Running s) (hpc : s.socket.pc ≠ .left) (hstalled : ¬ Stalled s) :
    ∃ a, a.ofServer = true ∧ ClientServer.step S s a ≠ none := by
  cases hpushing : s.pushing with
  | some e =>
    by_cases hroom : s.respQueue.length < Rqueue.bound 0
    · refine ⟨.push, rfl, ?_⟩
      rw [ClientServer.step, Sys.push, hpushing, Option.bind_some, Sys.enqueue, if_pos hroom]
      exact Option.some_ne_none _
    cases hmade : s.socket.made with
    | nil =>
      -- `respQueue` is full, and the response thread has no pack in hand
      cases hqueue : s.respQueue with
      | nil =>
        rw [hqueue] at hroom
        exact absurd (by decide) hroom
      | cons e queue =>
        obtain ⟨n, hfree⟩ := h.free
        have hstep : ∃ socket,
            LocalSocket.step s.socket (.sendData n e.worker.remote e.bytes) = some socket := by
          simp only [LocalSocket.step, LocalSocket.Sys.sendData, hfree n (Nat.le_refl n)]
          split
          · exact ⟨_, rfl⟩
          · exact ⟨_, rfl⟩
        obtain ⟨socket, hstep⟩ := hstep
        refine ⟨.respond n, rfl, ?_⟩
        simp only [ClientServer.step, Sys.respond, hqueue]
        rw [if_pos hmade, hstep]
        exact Option.some_ne_none _
    | cons p made =>
      have hfull : ¬ LocalSocket.queuelen ≤ s.socket.m_sendQueue.length := by
        refine fun hfull => hstalled ⟨?_, Nat.le_of_not_lt hroom, ?_, hfull⟩
        · rw [hpushing]
          exact Option.some_ne_none e
        · rw [hmade]
          exact List.cons_ne_nil p made
      have hp : p ∈ s.socket.made := by
        rw [hmade]
        exact List.mem_cons_self
      obtain ⟨sendPack, hpack⟩ := Option.ne_none_iff_exists'.mp
        (h.queue.alive p (List.mem_append_right _ hp))
      refine ⟨.pushPack p, rfl, ?_⟩
      rw [ClientServer.step, Sys.pushPack, LocalSocket.step, LocalSocket.Sys.push,
        if_pos ⟨hp, Nat.not_le.mp hfull⟩, hpack]
      exact Option.some_ne_none _
  | none =>
    cases hwork : s.work with
    | cons a work =>
      refine ⟨.process { exampleServer with HEADER_VERSION := S.HEADER_VERSION }, rfl, ?_⟩
      simp only [ClientServer.step, Sys.process, hwork]
      rw [if_pos ⟨hpushing, trivial⟩]
      exact Option.some_ne_none _
    | nil =>
      obtain ⟨a, socket, ha, hstep, hfails⟩ := LocalSocket.exists_loop h.queue hpc
      have hallowed : s.Allowed a := by
        cases a with
        | sendData p fd data => trivial
        | push p => trivial
        | front => trivial
        | send canWrite ret => exact .inr (hfails canWrite ret rfl)
        | pop => trivial
        | select => trivial
      refine ⟨.server a, rfl, ?_⟩
      rw [ClientServer.step, Sys.server, if_pos ⟨⟨hwork, hpushing⟩, ha, hallowed⟩, hstep]
      exact Option.some_ne_none _

end Running

/-- Any connected client can bring the server's two threads to wait for each other for good, by
requests to which it takes no answer. -/
theorem exists_blocked (hS : Supported S c) (hfd : 3 ≤ fd) (hm_fd : S.m_fd ≠ 0) (hown : S.own c ≠ 0)
    (h : Idle S c fd s) : ∃ t, Flooded S c fd (Rqueue.bound 0 + 7) s t ∧ Blocked S t := by
  obtain ⟨t, ht, -, hstalled⟩ := exists_stalled hS hfd hm_fd hown h
  exact ⟨t, ht, hstalled.blocked⟩

theorem exists_blocked_five :
    ∃ s t, run (step exampleSetting) (init exampleSetting)
        [.server .front, .accept (some 5), .server .select] = some s ∧
      Flooded exampleSetting 0 5 65542 s t ∧ Blocked exampleSetting t := by
  obtain ⟨s, hs, hidle⟩ := @exists_idle exampleSetting 5 (by decide) (by decide) (by decide)
  obtain ⟨t, ht, hblocked⟩ :=
    exists_blocked (supported_exampleSetting 0) (by decide) (by decide) (by decide) hidle
  exact ⟨s, t, hs, ht, hblocked⟩

end ClientServer

end Hardcoder
