import Hardcoder.ClientServerExchange

/-! The server's two threads can come to wait for each other's queues: `loop` pushes to
`respQueue`, which only the response thread empties, and that pushes to `m_sendQueue`, which
only `loop` empties. A client that sends requests and takes no answer brings them there. -/

namespace Hardcoder
open Stream Runs
set_option autoImplicit false

namespace LocalSocket

/-- The thread in `loop` has nothing to send, and no other thread is in `sendData`. -/
structure Ready (fd : Fd) (c : Sys) : Prop where
  m_fd : c.m_fd = fd
  pc : c.pc = .top
  m_sendQueue : c.m_sendQueue = []
  made : c.made = []
  free : c.heap 0 = none

/-- One pack is taken and sent as a whole. -/
theorem Ready.sendOne {fd : Fd} {c : Sys} {data : List UInt8} (h : Ready fd c) (hfd : fd ≠ 0)
    (hdata : data ≠ []) :
    ∃ c₁ c₂ c₃, step c (.sendData 0 fd data) = some c₁ ∧ step c₁ (.push 0) = some c₂ ∧
      run step c₂ [.front, .send true data.length, .pop, .select] = some c₃ ∧
      Ready fd c₃ ∧ c₃.handed fd = c.handed fd ++ data := by
  obtain ⟨rfl, hpc, hqueue, hmade, hfree⟩ := h
  let c₁ : Sys := { c with
    heap := Function.update c.heap 0 (some ⟨c.m_fd, data, 0⟩), made := [0] }
  let c₂ : Sys := { c₁ with made := [], m_sendQueue := [0], pushed := c.pushed ++ [(c.m_fd, data)] }
  let c₃ : Sys := { c₂ with
    heap := Function.update (Function.update c₁.heap 0 (some ⟨c.m_fd, data, data.length⟩)) 0 none
    m_sendQueue := []
    handed := Function.update c.handed c.m_fd (c.handed c.m_fd ++ data) }
  have hsend : step c (.sendData 0 c.m_fd data) = some c₁ := by
    simp [step, Sys.sendData, hdata, hfree, hmade, c₁]
  have hpush : step c₁ (.push 0) = some c₂ := by
    simp [step, Sys.push, c₁, c₂, hqueue, queuelen]
  have hfront : step c₂ .front = some { c₂ with pc := .front 0 } := by
    simp [step, Sys.front, c₁, c₂, hpc, hfd]
  have hsent : step { c₂ with pc := .front 0 } (.send true data.length) = some { c₂ with
      heap := Function.update c₁.heap 0 (some ⟨c.m_fd, data, data.length⟩)
      handed := Function.update c.handed c.m_fd (c.handed c.m_fd ++ data)
      pc := .sent 0 } := by
    have hnonneg : ¬ (data.length : Int) < 0 := Int.not_lt.mpr (Int.natCast_nonneg _)
    simp [step, Sys.send, c₁, c₂, hnonneg]
  have hfree : c₃.heap 0 = none := by simp only [c₃, Function.update_self]
  refine ⟨c₁, c₂, c₃, hsend, hpush, ?_, ⟨rfl, hpc, rfl, rfl, hfree⟩, Function.update_self ..⟩
  refine run_cons.mpr ⟨_, hfront, run_cons.mpr ⟨_, hsent, ?_⟩⟩
  simp [run, step, Sys.pop, c₁, c₂, c₃, hpc]

end LocalSocket

namespace ClientServer
open LocalSocket (Fd Ptr Ready)
open LocalSocketServer (Conn)

/-- Both threads are before the `push` to a queue that is full. -/
structure Stalled (s : Sys) : Prop where
  pushing : s.pushing ≠ none
  respQueue : Rqueue.bound 0 ≤ s.respQueue.length
  made : s.socket.made ≠ []
  m_sendQueue : LocalSocket.queuelen ≤ s.socket.m_sendQueue.length

variable (S : Setting) (c : Conn) (fd : Fd)

/-- What the client's threads do, and what the server's do that reads from its descriptor only
and sends nothing. -/
def Action.Floods : Action → Prop
  | .sendReq c' _ _ | .client c' _ => c' = c
  | .server (.send canWrite _) => canWrite = false
  | .recv fd' _ _ => fd' = fd
  | .server _ | .process _ | .push | .respond _ | .pushPack _ => True
  | .take .. | .lose _ | .accept _ | .hangUp _ | .notify .. => False

/-- The client pushes `n` requests, and no other client does anything. -/
def Flooded (n : Nat) (s t : Sys) : Prop :=
  ∃ as, run (step S) s as = some t ∧ (∀ a ∈ as, a.Floods c fd) ∧
    (t.peers c).requests.length = (s.peers c).requests.length + n

/-- `q` packs wait in `m_sendQueue` and `r` answers in `respQueue`, all for the client, and the
response thread has the packs `made` in hand. -/
structure Waiting (q : Nat) (made : List Ptr) (r : Nat) (s : Sys) : Prop where
  conn : s.conns fd = some c
  mapUid : s.mapUid.get? fd = some (S.uid c)
  cache : s.mapRecvCache fd = none
  work : s.work = []
  pushing : s.pushing = none
  m_fd : s.socket.m_fd = S.m_fd
  pc : s.socket.pc = .top
  m_sendQueue : s.socket.m_sendQueue.length = q
  made : s.socket.made = made
  packs : ∀ p ∈ s.socket.m_sendQueue ++ s.socket.made,
    (s.socket.heap p).map LocalSocket.SendPack.fd = some fd
  free : ∀ p, q + s.socket.made.length ≤ p → s.socket.heap p = none
  respQueue : s.respQueue.length = r
  entries : ∀ e ∈ s.respQueue, e.bytes ≠ [] ∧ e.worker.remote = fd

/-- And the server has read what the client has sent, which is ready to send more. -/
structure Level (q : Nat) (made : List Ptr) (r : Nat) (s : Sys) : Prop
    extends Waiting S c fd q made r s where
  ready : Ready (S.own c) (s.peers c).socket
  read : (s.peers c).read = (s.peers c).socket.handed (S.own c)

/-- The client is connected, and nothing is under way in it and in the server. -/
def Idle (s : Sys) : Prop := Level S c fd 0 [] 0 s

variable {S c fd} {s t u : Sys}

namespace Flooded

theorem refl (s : Sys) : Flooded S c fd 0 s s := ⟨[], run_nil s, List.forall_mem_nil _, rfl⟩

theorem trans {m n : Nat} (h : Flooded S c fd m s t) (h' : Flooded S c fd n t u) :
    Flooded S c fd (m + n) s u := by
  obtain ⟨as, hrun, has, hlength⟩ := h
  obtain ⟨bs, hrun', hbs, hlength'⟩ := h'
  refine ⟨as ++ bs, run_append.mpr ⟨t, hrun, hrun'⟩, List.forall_mem_append.mpr ⟨has, hbs⟩, ?_⟩
  rw [hlength', hlength, Nat.add_assoc]

theorem single {a : Action} (ha : a.Floods c fd) (hs : step S s a = some t)
    (hrequests : (t.peers c).requests = (s.peers c).requests) : Flooded S c fd 0 s t :=
  ⟨[a], run_cons.mpr ⟨t, hs, run_nil t⟩, List.forall_mem_singleton.mpr ha, by rw [hrequests]; rfl⟩

end Flooded

section Request

theorem sendable_oneByteRequest (hS : Supported S c) : Sys.Sendable S c oneByteRequest := by
  rw [Sys.Sendable, Request.genPack_eq hS.version_le hS.version_lt]
  have hret : 0 < (oneByteRequest.header HEADER_PROTOCAL_VERSION).requestid.toInt := by decide
  have hlen : 0 < (oneByteRequest.dataLen + BitVec.ofNat 32 AMCReqHeader.size).toInt := by decide
  exact ⟨hret, hlen⟩

/-- Steps of the client's `loop`. -/
theorem run_client {as : List LocalSocket.Action} (has : ∀ a ∈ as, a.ofLoop = true) :
    ∀ {s : Sys} {socket : LocalSocket.Sys}, run LocalSocket.step (s.peers c).socket as = some socket →
      run (step S) s (as.map (.client c)) = some (s.update c { s.peers c with socket := socket }) := by
  induction as with
  | nil =>
    intro s socket h
    obtain rfl := Option.some.inj h
    rw [List.map_nil, run_nil, Sys.update, Function.update_eq_self]
  | cons a as ih =>
    intro s socket h
    obtain ⟨ha, has⟩ := List.forall_mem_cons.mp has
    obtain ⟨socket', hsocket', h⟩ := run_cons.mp h
    have hstep : step S s (.client c a) =
        some (s.update c { s.peers c with socket := socket' }) := by
      cases a with
      | sendData p fd data => cases ha
      | push p => cases ha
      | front => exact Option.map_eq_some_iff.mpr ⟨socket', hsocket', rfl⟩
      | send canWrite ret => exact Option.map_eq_some_iff.mpr ⟨socket', hsocket', rfl⟩
      | pop => exact Option.map_eq_some_iff.mpr ⟨socket', hsocket', rfl⟩
      | select => exact Option.map_eq_some_iff.mpr ⟨socket', hsocket', rfl⟩
    have hsocket : ((s.update c { s.peers c with socket := socket' }).peers c).socket = socket' := by
      rw [update_self]
    have hrun := ih has ((congrArg (run LocalSocket.step · as) hsocket).trans h)
    rw [update_self, Sys.update, Sys.update, Function.update_idem] at hrun
    exact run_cons.mpr ⟨_, hstep, hrun⟩

/-- The client sends a request. -/
theorem exists_send {r : Request} (hS : Supported S c) (hown : S.own c ≠ 0)
    (hready : Ready (S.own c) (s.peers c).socket) (hr : Sys.Sendable S c r) :
    ∃ peer, Flooded S c fd 1 s (s.update c peer) ∧ Ready (S.own c) peer.socket ∧
      peer.socket.handed (S.own c) =
        (s.peers c).socket.handed (S.own c) ++ r.pack (S.version c) ∧
      peer.read = (s.peers c).read := by
  have hne : r.pack (S.version c) ≠ [] := by
    refine List.ne_nil_of_length_pos ?_
    rw [r.length_pack hS.version_le hS.version_lt]
    exact Nat.lt_of_lt_of_le (by decide) (Nat.le_add_right _ _)
  obtain ⟨c₁, c₂, c₃, hsend, hpush, hloop, hready, hhanded⟩ := hready.sendOne hown hne
  let peer₁ : Peer := { s.peers c with
    socket := c₁, made := Function.update (s.peers c).made 0 (some r) }
  let peer₂ : Peer := { peer₁ with socket := c₂, requests := peer₁.requests ++ [r] }
  have hsend' : step S s (.sendReq c 0 r) = some (s.update c peer₁) :=
    (if_pos hr).trans (Option.map_eq_some_iff.mpr ⟨c₁, hsend, rfl⟩)
  have hpush' : step S (s.update c peer₁) (.client c (.push 0)) = some (s.update c peer₂) := by
    refine Option.map_eq_some_iff.mpr ⟨c₂, ?_, ?_⟩
    · rw [update_self]
      exact hpush
    · rw [update_self, Sys.update, Sys.update, Function.update_idem]
      simp only [peer₁, peer₂, Function.update_self, Option.toList_some]
      rfl
  have hof : ∀ a ∈ [LocalSocket.Action.front, .send true (r.pack (S.version c)).length, .pop, .select],
      a.ofLoop = true := by
    simp [LocalSocket.Action.ofLoop]
  have hloop' := @run_client S c _ hof (s.update c peer₂) c₃ (by rw [update_self]; exact hloop)
  rw [update_self, Sys.update, Sys.update, Function.update_idem] at hloop'
  refine ⟨_, ⟨_, run_cons.mpr ⟨_, hsend', run_cons.mpr ⟨_, hpush', hloop'⟩⟩, ?_, ?_⟩, hready, hhanded,
    rfl⟩
  · refine List.forall_mem_cons.mpr ⟨rfl, List.forall_mem_cons.mpr ⟨rfl, fun a ha => ?_⟩⟩
    obtain ⟨a, -, rfl⟩ := List.mem_map.mp ha
    rfl
  · rw [update_self]
    exact List.length_append

theorem sent_of_handed {socket : LocalSocket.Sys} (h : socket.handed = s.socket.handed) :
    s.sent socket = { s with socket := socket } := by
  unfold Sys.sent
  split
  · rfl
  split
  · rfl
  rw [h, List.drop_length, List.append_nil, Sys.update, Function.update_eq_self]

theorem server_front {socket : LocalSocket.Sys} (hfree : s.Free)
    (h : LocalSocket.step s.socket .front = some socket) :
    step S s (.server .front) = some { s with socket := socket } :=
  (if_pos ⟨hfree, rfl, trivial⟩).trans (Option.map_eq_some_iff.mpr ⟨socket, h, rfl⟩)

theorem server_select (hfree : s.Free) (hpc : s.socket.pc = .select) :
    step S s (.server .select) = some { s with socket := { s.socket with pc := .top } } :=
  (if_pos ⟨hfree, rfl, trivial⟩).trans (Option.map_eq_some_iff.mpr ⟨_, if_pos hpc, rfl⟩)

/-- The server's `loop` comes to `select`; if it has a pack to send, the socket is not writable. -/
theorem Waiting.select {q r : Nat} {made : List Ptr} (h : Waiting S c fd q made r s)
    (hm_fd : S.m_fd ≠ 0) :
    Flooded S c fd 0 s { s with socket := { s.socket with pc := .select } } := by
  have hnonzero : s.socket.m_fd ≠ 0 := by
    rw [h.m_fd]
    exact hm_fd
  have hfree : s.Free := ⟨h.work, h.pushing⟩
  cases hqueue : s.socket.m_sendQueue with
  | nil =>
    have hfront : LocalSocket.step s.socket .front = some { s.socket with pc := .select } := by
      simp [LocalSocket.step, LocalSocket.Sys.front, h.pc, hnonzero, hqueue]
    exact .single (a := .server .front) trivial (server_front hfree hfront) rfl
  | cons p queue =>
    have hp := h.packs p (List.mem_append_left _ (by rw [hqueue]; exact List.mem_cons_self))
    obtain ⟨sendPack, hpack, hfd⟩ := Option.map_eq_some_iff.mp hp
    have hfront : LocalSocket.step s.socket .front = some { s.socket with pc := .front p } := by
      simp [LocalSocket.step, LocalSocket.Sys.front, h.pc, hnonzero, hqueue]
    let t : Sys := { s with socket := { s.socket with pc := .front p } }
    have hsend : LocalSocket.step t.socket (.send false 0) = some { s.socket with pc := .select } := by
      simp [LocalSocket.step, LocalSocket.Sys.send, hpack, t]
    have hallowed : t.Allowed (.send false 0) := by
      refine .inl ?_
      simp [LocalSocket.Sys.frontFd, t, hpack, hfd, h.conn]
    have hstep' : step S t (.server (.send false 0)) =
        some { s with socket := { s.socket with pc := .select } } :=
      (if_pos ⟨hfree, rfl, hallowed⟩).trans
        (Option.map_eq_some_iff.mpr ⟨_, hsend, sent_of_handed rfl⟩)
    have hflooded : Flooded S c fd 0 s t :=
      .single (a := .server .front) trivial (server_front hfree hfront) rfl
    exact hflooded.trans (.single (a := .server (.send false 0)) rfl hstep' rfl)

/-- The server reads the request. -/
theorem recv_eq (hS : Supported S c) (hfd : 3 ≤ fd) (hconn : s.conns fd = some c) (hfree : s.Free)
    (hpc : s.socket.pc = .select) (hcache : s.mapRecvCache fd = none)
    (hhanded : (s.peers c).socket.handed (S.own c) =
      (s.peers c).read ++ oneByteRequest.pack (S.version c)) :
    step S s (.recv fd bufferSize fun _ => 0) = some { s.update c { s.peers c with
      read := (s.peers c).socket.handed (S.own c) } with
        mapRecvCache := Function.update s.mapRecvCache fd none
        work := [⟨c, fd, (s.mapUid.get? fd).getD 0, oneByteRequest.frame (S.version c)⟩] } := by
  have hlength : (oneByteRequest.pack (S.version c)).length = 33 :=
    oneByteRequest.length_pack hS.version_le hS.version_lt
  have hchunk : s.upChunk S c bufferSize = oneByteRequest.pack (S.version c) := by
    rw [Sys.upChunk, hhanded, List.drop_left, List.take_of_length_le]
    rw [hlength]
    decide
  have hne : s.upChunk S c bufferSize ≠ [] := by
    rw [hchunk]
    exact List.ne_nil_of_length_pos (by rw [hlength]; decide)
  have hevent : recvEvent id 2 none ⟨oneByteRequest.pack (S.version c), fun _ => 0⟩ =
      some ⟨0, none, [oneByteRequest.frame (S.version c)]⟩ := by
    refine @recvLoop_frames _ hS.version_le hS.version_lt _ ?_ [oneByteRequest] [] [] ?_ ?_ ?_
    · rw [hlength]
      decide
    · decide
    · decide
    · rw [List.nil_append, List.append_nil, wire_cons, wire_nil, List.append_nil]
  have hmore := recvLoop_mono _ (by decide : 2 ≤ bufferSize + 1) hevent
  rw [step, Sys.recv, hconn, Option.bind_some, if_pos ⟨hfree, hpc, hfd, hne, Nat.le_refl _⟩, hchunk,
    hcache, recvEvent, hmore, Option.map_some, ← hhanded]
  rfl

/-- The server answers it. -/
theorem process_eq (hS : Supported S c) {a : Assembled} (huid : a.uid = S.uid a.conn)
    (hframe : a.frame = oneByteRequest.frame (S.version c)) (hpushing : s.pushing = none)
    (hwork : s.work = [a]) :
    ∃ env handled e, step S s (.process env) =
      some { s with work := [], handled := handled, pushing := some e } ∧ e.bytes ≠ [] ∧
        e.worker.remote = a.fd := by
  let env : ServerEnv := { exampleServer with HEADER_VERSION := S.HEADER_VERSION }
  let e : Entry := ⟨(env.processFrame a.uid a.frame).worker a.fd, some ⟨a, env⟩⟩
  have henv : env.HEADER_VERSION = S.HEADER_VERSION := rfl
  obtain ⟨hret, p, hp⟩ := answers_process hS huid (sendable_oneByteRequest hS) hframe henv
  have hbytes : e.bytes = Response.pack S.HEADER_VERSION p := hp.bytes
  refine ⟨env, s.handled ++ [⟨a, env⟩], e, ?_, ?_, rfl⟩
  · simp only [step, Sys.process, hwork]
    rw [if_pos ⟨hpushing, rfl⟩, if_neg hret]
  · rw [hbytes]
    refine List.ne_nil_of_length_pos ?_
    rw [Response.length_pack hS.le]
    exact Nat.lt_of_lt_of_le (by decide) (p.1.size_le _)

end Request

section Level
variable {q r : Nat} {made : List Ptr}

/-- What the clients do does not matter to it. -/
theorem Waiting.update (h : Waiting S c fd q made r s) (peer : Peer) :
    Waiting S c fd q made r (s.update c peer) :=
  ⟨h.conn, h.mapUid, h.cache, h.work, h.pushing, h.m_fd, h.pc, h.m_sendQueue, h.made, h.packs, h.free,
    h.respQueue, h.entries⟩

namespace Level

/-- One more request, up to the `push` of its answer. -/
theorem request (h : Level S c fd q made r s) (hS : Supported S c) (hfd : 3 ≤ fd)
    (hm_fd : S.m_fd ≠ 0) (hown : S.own c ≠ 0) :
    ∃ t e, Flooded S c fd 1 s
        { t with socket := { t.socket with pc := .select }, pushing := some e } ∧
      e.bytes ≠ [] ∧ e.worker.remote = fd ∧ Level S c fd q made r t := by
  obtain ⟨peer, hsend, hready, hhanded, hread⟩ :=
    @exists_send S c fd s _ hS hown h.ready (sendable_oneByteRequest hS)
  let s₁ := s.update c peer
  have hpeer : s₁.peers c = peer := update_self ..
  have hwaiting : Waiting S c fd q made r s₁ := h.toWaiting.update peer
  let s₂ : Sys := { s₁ with socket := { s₁.socket with pc := .select } }
  have hselect : Flooded S c fd 0 s₁ s₂ := hwaiting.select hm_fd
  have hall : (s₂.peers c).socket.handed (S.own c) =
      (s₂.peers c).read ++ oneByteRequest.pack (S.version c) := by
    rw [show s₂.peers c = peer from hpeer, hhanded, hread, h.read]
  have hrecv := @recv_eq S c fd s₂ hS hfd h.conn ⟨h.work, h.pushing⟩ rfl h.cache hall
  let a : Assembled := ⟨c, fd, (s.mapUid.get? fd).getD 0, oneByteRequest.frame (S.version c)⟩
  let peer' : Peer := { s₂.peers c with read := (s₂.peers c).socket.handed (S.own c) }
  let s₃ : Sys := { s₂.update c peer' with
    mapRecvCache := Function.update s₂.mapRecvCache fd none
    work := [a] }
  have huid : a.uid = S.uid a.conn := by
    rw [show a.uid = (s.mapUid.get? fd).getD 0 from rfl, h.mapUid]
    rfl
  obtain ⟨env, handled, e, hprocess, hbytes, hremote⟩ :=
    @process_eq S c s₃ hS a huid rfl h.pushing rfl
  have hpeer' : s₃.peers c = peer' := update_self ..
  let t : Sys := { s₃ with socket := s.socket, work := [], handled := handled }
  have hread₃ : Flooded S c fd 0 s₂ s₃ :=
    .single (a := .recv fd bufferSize fun _ => 0) rfl hrecv (by rw [hpeer'])
  have hprocess₃ : Flooded S c fd 0 s₃
      { t with socket := { t.socket with pc := .select }, pushing := some e } :=
    .single (a := .process env) trivial hprocess rfl
  refine ⟨t, e, (hsend.trans hselect).trans (hread₃.trans hprocess₃), hbytes, hremote, ?_, ?_, ?_⟩
  · refine ⟨h.conn, h.mapUid, Function.update_self .., rfl, h.pushing, h.m_fd, h.pc, h.m_sendQueue,
      h.made, h.packs, h.free, h.respQueue, h.entries⟩
  · rw [show t.peers c = peer' from hpeer']
    change Ready (S.own c) (s₁.peers c).socket
    rw [hpeer]
    exact hready
  · rw [show t.peers c = peer' from hpeer']

theorem add (h : Level S c fd q made r s) (hS : Supported S c) (hfd : 3 ≤ fd) (hm_fd : S.m_fd ≠ 0)
    (hown : S.own c ≠ 0) (hr : r < Rqueue.bound 0) :
    ∃ t, Flooded S c fd 1 s t ∧ Level S c fd q made (r + 1) t := by
  obtain ⟨t, e, hrun, hbytes, hremote, ht⟩ := h.request hS hfd hm_fd hown
  let t₁ : Sys := { t with socket := { t.socket with pc := .select }, pushing := some e }
  let peer : Peer := { t.peers c with queued := (t.peers c).queued ++ [e] }
  let t' : Sys := { t.update c peer with pushing := none, respQueue := t.respQueue ++ [e] }
  let t₂ : Sys := { t' with socket := { t.socket with pc := .select } }
  have hnote : Sys.note { t₁ with pushing := none } e = { t.update c peer with
      socket := { t.socket with pc := .select }, pushing := none } := by
    rw [Sys.note, show t₁.conns e.worker.remote = some c by rw [hremote]; exact ht.conn]
    rfl
  have hpush : step S t₁ .push = some t₂ := by
    rw [step, Sys.push, show t₁.pushing = some e from rfl, Option.bind_some, Sys.enqueue,
      if_pos (show t₁.respQueue.length < _ from ht.respQueue ▸ hr), hnote]
  have hselect : step S t₂ (.server .select) = some t' := by
    have htop : { t₂.socket with pc := .top } = t.socket := by rw [← ht.pc]
    have hstep := @server_select S t₂ ⟨ht.work, rfl⟩ rfl
    rw [htop] at hstep
    exact hstep
  have hpeer : t'.peers c = peer := update_self ..
  have hflooded : Flooded S c fd 0 t₁ t₂ :=
    .single (a := .push) trivial hpush (by rw [show t₂.peers c = peer from hpeer])
  have hflooded' : Flooded S c fd 0 t₂ t' := .single (a := .server .select) trivial hselect rfl
  refine ⟨t', hrun.trans (hflooded.trans hflooded'), ?_, ?_, ?_⟩
  · refine ⟨ht.conn, ht.mapUid, ht.cache, ht.work, rfl, ht.m_fd, ht.pc, ht.m_sendQueue, ht.made,
      ht.packs, ht.free, ?_, ?_⟩
    · rw [List.length_append, ht.respQueue, List.length_singleton]
    · exact List.forall_mem_append.mpr
        ⟨ht.entries, List.forall_mem_singleton.mpr ⟨hbytes, hremote⟩⟩
  · rw [hpeer]
    exact ht.ready
  · rw [hpeer]
    exact ht.read

theorem fill (h : Level S c fd q made r s) (hS : Supported S c) (hfd : 3 ≤ fd) (hm_fd : S.m_fd ≠ 0)
    (hown : S.own c ≠ 0) {n : Nat} (hn : r + n ≤ Rqueue.bound 0) :
    ∃ t, Flooded S c fd n s t ∧ Level S c fd q made (r + n) t := by
  induction n with
  | zero => exact ⟨s, .refl s, h⟩
  | succ n ih =>
    obtain ⟨t, hrun, ht⟩ := ih (Nat.le_of_succ_le hn)
    obtain ⟨u, hrun', hu⟩ := ht.add hS hfd hm_fd hown hn
    exact ⟨u, hrun.trans hrun', hu⟩

/-- The response thread makes a pack. -/
theorem respond (h : Level S c fd q [] (r + 1) s) :
    ∃ t, Flooded S c fd 0 s t ∧ Level S c fd q [q] r t := by
  cases hqueue : s.respQueue with
  | nil =>
    have hlength := h.respQueue
    rw [hqueue] at hlength
    cases hlength
  | cons e queue =>
    have hentries := h.entries
    rw [hqueue] at hentries
    obtain ⟨⟨hbytes, hremote⟩, hrest⟩ := List.forall_mem_cons.mp hentries
    have hfree (p : Ptr) (hp : q ≤ p) : s.socket.heap p = none :=
      h.free p (by rw [h.made]; exact hp)
    let socket : LocalSocket.Sys := { s.socket with
      heap := Function.update s.socket.heap q (some ⟨e.worker.remote, e.bytes, 0⟩)
      made := [q] }
    have hsend : LocalSocket.step s.socket (.sendData q e.worker.remote e.bytes) = some socket := by
      simp [LocalSocket.step, LocalSocket.Sys.sendData, hbytes, hfree q (Nat.le_refl q), h.made, socket]
    have hstep : step S s (.respond q) = some { s with socket := socket, respQueue := queue } := by
      simp only [step, Sys.respond, hqueue]
      rw [if_pos h.made, hsend, Option.map_some]
    refine ⟨_, .single (a := .respond q) trivial hstep rfl, ⟨h.conn, h.mapUid, h.cache, h.work,
      h.pushing, h.m_fd, h.pc, h.m_sendQueue, rfl, fun p hp => ?_, fun p hp => ?_, ?_, hrest⟩, h.ready,
      h.read⟩
    · by_cases hpq : p = q
      · rw [hpq]
        simp [socket, hremote]
      · rcases List.mem_append.mp hp with hp | hp
        · simp only [socket, Function.update_of_ne hpq]
          exact h.packs p (List.mem_append_left _ hp)
        · exact absurd (List.mem_singleton.mp hp) hpq
    · have hlt : q < p := hp
      simp only [socket, Function.update_of_ne (Nat.ne_of_gt hlt)]
      exact hfree p (Nat.le_of_lt hlt)
    · have hlength := h.respQueue
      rw [hqueue] at hlength
      exact Nat.succ.inj hlength

/-- It pushes it. -/
theorem pushPack (h : Level S c fd q [q] r s) (hq : q < LocalSocket.queuelen) :
    ∃ t, Flooded S c fd 0 s t ∧ Level S c fd (q + 1) [] r t := by
  have hmem : q ∈ s.socket.made := by
    rw [h.made]
    exact List.mem_singleton.mpr rfl
  obtain ⟨sendPack, hpack, -⟩ := Option.map_eq_some_iff.mp
    (h.packs q (List.mem_append_right _ hmem))
  have hstep : step S s (.pushPack q) = some { s with socket := { s.socket with
      made := s.socket.made.erase q
      m_sendQueue := s.socket.m_sendQueue ++ [q]
      pushed := s.socket.pushed ++ [(sendPack.fd, sendPack.data)] } } := by
    rw [step, Sys.pushPack, LocalSocket.step, LocalSocket.Sys.push, if_pos ⟨hmem, h.m_sendQueue ▸ hq⟩,
      hpack]
    rfl
  refine ⟨_, .single (a := .pushPack q) trivial hstep rfl, ⟨h.conn, h.mapUid, h.cache, h.work,
    h.pushing, h.m_fd, h.pc, ?_, ?_, ?_, ?_, h.respQueue, h.entries⟩, h.ready, h.read⟩
  · rw [List.length_append, h.m_sendQueue, List.length_singleton]
  · rw [h.made, List.erase_cons_head]
  · rw [h.made, List.erase_cons_head, List.append_nil, ← h.made]
    exact h.packs
  · have hfree := h.free
    rw [h.made] at hfree ⊢
    rw [List.erase_cons_head]
    exact hfree

end Level

/-- After `q` requests none of whose answers could be sent. -/
theorem exists_level (hS : Supported S c) (hfd : 3 ≤ fd) (hm_fd : S.m_fd ≠ 0) (hown : S.own c ≠ 0)
    (h : Idle S c fd s) (hq : q ≤ LocalSocket.queuelen) :
    ∃ t, Flooded S c fd q s t ∧ Level S c fd q [] 0 t := by
  induction q with
  | zero => exact ⟨s, .refl s, h⟩
  | succ q ih =>
    obtain ⟨t, ht, h⟩ := ih (Nat.le_of_succ_le hq)
    obtain ⟨u, hu, h⟩ := h.add hS hfd hm_fd hown (by decide)
    obtain ⟨v, hv, h⟩ := h.respond
    obtain ⟨w, hw, h⟩ := h.pushPack hq
    exact ⟨w, ht.trans (hu.trans (hv.trans hw)), h⟩

end Level

/-- The first client is connected. -/
theorem exists_idle (hfd : 3 ≤ fd) (hne : fd ≠ S.m_fd) (hm_fd : S.m_fd ≠ 0) :
    ∃ s, run (step S) (init S) [.server .front, .accept (some fd), .server .select] = some s ∧
      Idle S 0 fd s := by
  let s₁ : Sys := { init S with socket := { (init S).socket with pc := .select } }
  let s₃ : Sys := { init S with
    conns := Function.update (init S).conns fd (some 0)
    accepted := 1
    mapUid := (init S).mapUid.set fd (S.uid 0) }
  let s₂ : Sys := { s₃ with socket := s₁.socket }
  have hfront : LocalSocket.step (init S).socket .front = some s₁.socket := by
    simp [LocalSocket.step, LocalSocket.Sys.front, init, LocalSocket.init, hm_fd, s₁]
  have haccept : step S s₁ (.accept (some fd)) = some s₂ := by
    have hguard : s₁.conns fd = none ∧ fd ≠ S.m_fd := ⟨rfl, hne⟩
    have hpositive : ¬ fd = 0 := Nat.ne_of_gt (Nat.lt_of_lt_of_le (by decide) hfd)
    rw [step, Sys.accept, if_pos ⟨⟨rfl, rfl⟩, rfl⟩]
    dsimp only
    rw [if_pos hguard, if_neg hpositive]
    rfl
  refine ⟨s₃, run_cons.mpr ⟨s₁, server_front ⟨rfl, rfl⟩ hfront, run_cons.mpr ⟨s₂, haccept,
    run_cons.mpr ⟨s₃, server_select ⟨rfl, rfl⟩ rfl, run_nil s₃⟩⟩⟩, ⟨?_, ?_, rfl, rfl, rfl, rfl, rfl, rfl,
      rfl, ?_, fun _ _ => rfl, rfl, ?_⟩, ⟨rfl, rfl, rfl, rfl, rfl⟩, rfl⟩
  · exact Function.update_self ..
  · exact SortedMap.get?_set_self ..
  · exact List.forall_mem_nil _
  · exact List.forall_mem_nil _

/-- A connected client alone can bring the server's threads to wait for each other. -/
theorem exists_stalled (hS : Supported S c) (hfd : 3 ≤ fd) (hm_fd : S.m_fd ≠ 0) (hown : S.own c ≠ 0)
    (h : Idle S c fd s) :
    ∃ t, Flooded S c fd (Rqueue.bound 0 + 7) s t ∧ t.socket.pc ≠ .left ∧ Stalled t := by
  obtain ⟨t, ht, h⟩ := exists_level hS hfd hm_fd hown h (Nat.le_refl LocalSocket.queuelen)
  -- one answer in the hands of the response thread
  obtain ⟨u, hu, h⟩ := h.add hS hfd hm_fd hown (by decide)
  obtain ⟨v, hv, h⟩ := h.respond
  -- all that `respQueue` takes, and one more
  obtain ⟨w, hw, h⟩ := h.fill hS hfd hm_fd hown (Nat.le_of_eq (Nat.zero_add (Rqueue.bound 0)))
  obtain ⟨x, e, hx, -, -, h⟩ := h.request hS hfd hm_fd hown
  refine ⟨_, ht.trans (hu.trans (hv.trans (hw.trans hx))), LocalSocket.Pc.noConfusion, ?_, ?_, ?_, ?_⟩
  · exact Option.some_ne_none e
  · rw [h.respQueue, Nat.zero_add]
  · dsimp only
    rw [h.made]
    exact List.cons_ne_nil _ _
  · exact Nat.le_of_eq h.m_sendQueue.symm

end ClientServer

end Hardcoder
