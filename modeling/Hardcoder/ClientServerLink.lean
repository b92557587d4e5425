import Hardcoder.ClientServerSteps

/-! One connection of a client with the server: what its requests become in the server's
`recvEvent`, what answers them, and what becomes of the answers in the client's `recvEvent`. -/

namespace Hardcoder
open Stream Runs
set_option autoImplicit false

namespace ClientServer
open LocalSocket (Fd Ptr)
open LocalSocketServer (Conn)

def entriesFor (fd : Fd) (es : List Entry) : List Entry := es.filter (·.worker.remote = fd)

variable (S : Setting) (c : Conn)

/-- Both sides use the header without the extension. -/
structure Supported : Prop where
  version_le : HEADER_PROTOCAL_VERSION ≤ S.version c
  version_lt : S.version c < HEADER_JSON_VERSION
  le : HEADER_PROTOCAL_VERSION ≤ S.HEADER_VERSION
  lt : S.HEADER_VERSION < HEADER_JSON_VERSION
  block : (S.block c).length = AMCRespHeaderV2.size

/-- The entry has the packet `p`, with the result of the request it answers. -/
structure Answers (e : Entry) (p : Sent) : Prop where
  bytes : e.bytes = Response.pack S.HEADER_VERSION p
  request : ∀ h, e.request = some h →
    p.1.body = [] ∧ p.1.requestId = h.frame.pHead.requestid ∧
      p.1.funcid = h.frame.pHead.funcid.setWidth 32 ∧ h.env.HEADER_VERSION = S.HEADER_VERSION ∧
      h.uid = S.uid h.conn ∧ ∃ call, h.env.processFrame h.uid h.frame =
        h.env.respond h.frame.pHead call p.1.retCode

/-- `onCallback` is called with what the entry holds. -/
def Delivers (e : Entry) (call : LocalsocketClient.Callback) : Prop :=
  ∃ p, Answers S e p ∧ Called p.1 call

structure ClientSide (peer : Peer) : Prop where
  queue : LocalSocket.Inv peer.socket
  made : ∀ p ∈ peer.socket.made, ∃ r, peer.made p = some r ∧ Sys.Sendable S c r ∧
    peer.socket.heap p = some ⟨S.own c, r.pack (S.version c), 0⟩
  pushed : peer.socket.pushed = peer.requests.map fun r => (S.own c, r.pack (S.version c))
  sendable : ∀ r ∈ peer.requests, Sys.Sendable S c r

/-- The server has read whole requests and a part of a header, which is in the cache. -/
structure Requested (peer : Peer) (cache : Option (RecvCache UInt8))
    (frames : List (ReqFrame UInt8)) : Prop where
  read : peer.read <+: peer.socket.handed (S.own c)
  framed : ∃ done rest part, peer.requests = done ++ rest ∧
    peer.read = wire (Request.pack (S.version c)) done ++ part ∧ part.length < AMCReqHeader.size ∧
    cache = headerCache part ∧ frames = done.map (Request.frame (S.version c))

/-- The client has read whole packets and a part of a header, and called back the packets. -/
structure Received (peer : Peer) : Prop where
  taken : peer.taken <+: peer.down
  framed : ∃ done rest part, peer.queued = done ++ rest ∧ peer.taken = wire Entry.bytes done ++ part ∧
    part.length < AMCRespHeader.size ∧ LocalsocketClient.Holds peer.st part ∧
    List.Forall₂ (Delivers S) done peer.calls

section Lists
variable {α β γ : Type}

theorem exists_forall₂ {R : α → β → Prop} {xs : List α} (h : ∀ x ∈ xs, ∃ y, R x y) :
    ∃ ys, List.Forall₂ R xs ys := by
  induction xs with
  | nil => exact ⟨[], .nil⟩
  | cons x xs ih =>
    obtain ⟨y, hy⟩ := h x List.mem_cons_self
    obtain ⟨ys, hys⟩ := ih fun x hx => h x (List.mem_cons_of_mem _ hx)
    exact ⟨y :: ys, .cons hy hys⟩

theorem isPrefix_append_take_drop {xs ys : List α} (h : xs <+: ys) (n : Nat) :
    xs ++ (ys.drop xs.length).take n <+: ys := by
  obtain ⟨zs, rfl⟩ := h
  rw [List.drop_left]
  exact (List.prefix_append_right_inj xs).mpr (List.take_prefix n zs)

theorem le_length_wire {bytes : α → List β} {n : Nat} {fs : List α}
    (h : ∀ f ∈ fs, n ≤ (bytes f).length) : n * fs.length ≤ (wire bytes fs).length := by
  induction fs with
  | nil => exact Nat.le_refl _
  | cons f fs ih =>
    have hf := h f List.mem_cons_self
    have hfs := ih fun g hg => h g (List.mem_cons_of_mem _ hg)
    rw [wire_cons, List.length_append, List.length_cons, Nat.mul_succ]
    omega

end Lists

section Client
variable {S c} {peer : Peer}

theorem clientSide_new : ClientSide S c (Peer.new S c) where
  queue := LocalSocket.inv_init _
  made := List.forall_mem_nil _
  pushed := rfl
  sendable := List.forall_mem_nil _

namespace ClientSide
variable (h : ClientSide S c peer)
include h

/-- The bytes of the client, sent or not, are its requests. -/
theorem handed_unsent (hup : S.own c ∉ peer.socket.refused) :
    peer.socket.handed (S.own c) ++ peer.socket.unsent (S.own c) =
      wire (Request.pack (S.version c)) peer.requests := by
  rw [h.queue.bytes _ hup, LocalSocket.Sys.pushedTo, h.pushed, List.flatMap_map]
  simp only [if_true]
  rw [wire, List.flatMap_def]

theorem sendReq (hS : Supported S c) {p : Ptr} {r : Request} (hr : Sys.Sendable S c r)
    {socket : LocalSocket.Sys}
    (hs : LocalSocket.step peer.socket (.sendData p (S.own c) (r.pack (S.version c))) = some socket) :
    ClientSide S c { peer with
      socket := socket, made := Function.update peer.made p (some r) } := by
  have hqueue := h.queue.step hs
  rcases LocalSocket.sendData_eq hs with ⟨hnil, -⟩ | ⟨hfree, rfl⟩
  · have hlength := r.length_pack hS.version_le hS.version_lt
    rw [hnil, List.length_nil, AMCReqHeader.size] at hlength
    omega
  refine ⟨hqueue, fun q hq => ?_, h.pushed, h.sendable⟩
  rcases List.mem_cons.mp hq with rfl | hq
  · exact ⟨r, Function.update_self .., hr, Function.update_self ..⟩
  · have hne : q ≠ p := fun heq => h.queue.alive q (List.mem_append_right _ hq) (heq ▸ hfree)
    obtain ⟨r', hmade, hr', hheap⟩ := h.made q hq
    exact ⟨r', (Function.update_of_ne hne _ _).trans hmade, hr',
      (Function.update_of_ne hne _ _).trans hheap⟩

theorem push {p : Ptr} {socket : LocalSocket.Sys}
    (hs : LocalSocket.step peer.socket (.push p) = some socket) :
    ClientSide S c { peer with
      socket := socket, requests := peer.requests ++ (peer.made p).toList } := by
  have hqueue := h.queue.step hs
  obtain ⟨sendPack, hmem, hpack, rfl⟩ := LocalSocket.push_eq hs
  obtain ⟨r, hmade, hr, hheap⟩ := h.made p hmem
  obtain rfl := Option.some.inj (hpack.symm.trans hheap)
  refine ⟨hqueue, fun q hq => h.made q (List.mem_of_mem_erase hq), ?_, ?_⟩
  · simp only [hmade, Option.toList_some, List.map_append, List.map_singleton, h.pushed]
  · rw [hmade, Option.toList_some]
    exact List.forall_mem_append.mpr ⟨h.sendable, List.forall_mem_singleton.mpr hr⟩

theorem loop {a : LocalSocket.Action} (ha : a.ofLoop = true) {socket : LocalSocket.Sys}
    (hs : LocalSocket.step peer.socket a = some socket) :
    ClientSide S c { peer with socket := socket } := by
  obtain ⟨hkeeps, -⟩ := LocalSocket.loop_keeps h.queue ha hs
  refine ⟨h.queue.step hs, fun q hq => ?_, hkeeps.pushed.trans h.pushed, h.sendable⟩
  rw [hkeeps.made] at hq
  obtain ⟨r, hmade, hr, hheap⟩ := h.made q hq
  exact ⟨r, hmade, hr, (hkeeps.heap q hq).trans hheap⟩

end ClientSide

end Client

section Server
variable {S c} {peer : Peer} {cache : Option (RecvCache UInt8)} {frames : List (ReqFrame UInt8)}

namespace Requested
variable (h : Requested S c peer cache frames)
include h

/-- More is requested and handed to the kernel. -/
theorem more {socket : LocalSocket.Sys} (hgrows : LocalSocket.Grows peer.socket socket)
    {made : Ptr → Option Request} (requests : List Request) :
    Requested S c { peer with
      socket := socket, made := made, requests := peer.requests ++ requests } cache frames := by
  obtain ⟨done, rest, part, heq, hread, hlt, hcache, hframes⟩ := h.framed
  refine ⟨h.read.trans (hgrows.handed _), done, rest ++ requests, part, ?_, hread, hlt, hcache, hframes⟩
  rw [← List.append_assoc, ← heq]

theorem frame_mem {f : ReqFrame UInt8} (hf : f ∈ frames) :
    ∃ r ∈ peer.requests, f = r.frame (S.version c) := by
  obtain ⟨done, rest, part, heq, -, -, -, rfl⟩ := h.framed
  obtain ⟨r, hr, rfl⟩ := List.mem_map.mp hf
  exact ⟨r, heq ▸ List.mem_append_left _ hr, rfl⟩

/-- A chunk that ends well: what it completes is assembled, and no more. -/
theorem recv (hS : Supported S c) (hclient : ClientSide S c peer)
    (hup : S.own c ∉ peer.socket.refused) {bs : List UInt8} {beyond : Nat → UInt8}
    (hlen : bs.length ≤ bufferSize) (hhanded : peer.read ++ bs <+: peer.socket.handed (S.own c))
    (hfine : ¬ Inside (Request.pack (S.version c)) AMCReqHeader.size peer.requests
      (peer.read.length + bs.length)) {r : RecvResult UInt8}
    (hr : recvEvent id (bufferSize + 1) cache ⟨bs, beyond⟩ = some r) :
    Requested S c { peer with read := peer.read ++ bs } r.cache (frames ++ r.frames) := by
  obtain ⟨done, rest, part, heq, hread, hlt, hcache, rfl⟩ := h.framed
  obtain ⟨ys, hys⟩ : peer.read ++ bs <+: wire (Request.pack (S.version c)) peer.requests :=
    hhanded.trans ⟨_, hclient.handed_unsent hup⟩
  have hrest : (part ++ bs) ++ ys = wire (Request.pack (S.version c)) rest := by
    rw [heq, wire_append, hread, List.append_assoc, List.append_assoc] at hys
    rw [List.append_assoc]
    exact List.append_cancel_left hys
  obtain ⟨next, later, part', rfl, hsplit, hbegun⟩ := exists_cut _ hrest
  have hlength : part.length + bs.length =
      (wire (Request.pack (S.version c)) next).length + part'.length := by
    rw [← List.length_append, hsplit, List.length_append]
  have hpart' : part'.length < AMCReqHeader.size := by
    refine @length_part_of_not_inside _ _ _ _ (done ++ next) later part' (by decide) hbegun ?_
    rw [List.append_assoc, ← heq, wire_append, List.length_append, Nat.add_assoc, ← hlength,
      ← Nat.add_assoc, ← List.length_append, ← hread]
    exact hfine
  have hcount : next.length + 1 ≤ bufferSize + 1 := by
    have hle := @le_length_wire _ _ (Request.pack (S.version c)) AMCReqHeader.size next
      fun r _ => (r.length_pack hS.version_le hS.version_lt) ▸ Nat.le_add_right _ _
    unfold AMCReqHeader.size at hle hlt
    unfold bufferSize at hlen ⊢
    omega
  have hevent := recvLoop_frames hS.version_le hS.version_lt ⟨bs, beyond⟩
    (Nat.lt_of_le_of_lt hlen (by decide)) next hlt hpart' hsplit
  rw [hcache, recvEvent] at hr
  obtain rfl := Option.some.inj (hr.symm.trans (recvLoop_mono _ hcount hevent))
  refine ⟨hhanded, done ++ next, later, part', ?_, ?_, hpart', rfl, List.map_append.symm⟩
  · rw [heq, List.append_assoc]
  · dsimp only
    rw [hread, List.append_assoc, hsplit, wire_append, List.append_assoc]

end Requested

end Server

section Entries
variable {S c}

theorem entriesFor_append {fd : Fd} (es es' : List Entry) :
    entriesFor fd (es ++ es') = entriesFor fd es ++ entriesFor fd es' := List.filter_append ..

theorem entriesFor_self {fd : Fd} {e : Entry} (h : e.worker.remote = fd) : entriesFor fd [e] = [e] := by
  simp [entriesFor, h]

theorem entriesFor_other {fd : Fd} {e : Entry} (h : e.worker.remote ≠ fd) : entriesFor fd [e] = [] := by
  simp [entriesFor, h]

/-- What `genRespPack` has made is sent as it is. -/
theorem bytes_genRespPack {e : Entry} {r : Response} {heap : Uninit} (hS : Supported S c)
    (hlen : r.body.length + AMCRespHeader.size < 2 ^ 31)
    (hresp : e.worker.resp = (genRespPack S.HEADER_VERSION heap r.ts r.funcid r.retCode r.requestId
      r.data r.dataLen).outPack)
    (hrespLen : e.worker.respLen = r.dataLen + BitVec.ofNat 32 AMCRespHeader.size) :
    e.bytes = Response.pack S.HEADER_VERSION (r, heap) := by
  have hpack : e.worker.resp = some (Response.pack S.HEADER_VERSION (r, heap)) := by
    have hf := r.funcid_le
    rw [hresp, Response.pack, genRespPack, if_neg (by omega), if_neg (BitVec.not_lt.mpr hS.le),
      if_neg (BitVec.not_le.mpr hS.lt)]
    rfl
  have hlength : (Response.pack S.HEADER_VERSION (r, heap)).length =
      AMCRespHeader.size + r.body.length := by
    rw [Response.length_pack hS.le, Response.size, if_neg (BitVec.not_le.mpr hS.lt)]
  have hnat : e.worker.respLen.toNat = AMCRespHeader.size + r.body.length := by
    unfold AMCRespHeader.size at hlen ⊢
    rw [hrespLen, BitVec.toNat_add, r.toNat_dataLen, BitVec.toNat_ofNat]
    unfold AMCRespHeader.size
    omega
  have hpos : 0 < e.worker.respLen.toInt := by
    rw [BitVec.toInt_eq_toNat_of_lt (by omega), hnat]
    unfold AMCRespHeader.size
    omega
  rw [Entry.bytes, if_pos hpos, copied, hpack, Option.getD_some, hnat, ← hlength, List.take_length]

/-- A request that came through gets its answer. -/
theorem answers_process (hS : Supported S c) {a : Assembled} (huid : a.uid = S.uid a.conn)
    {r : Request} (hr : Sys.Sendable S c r) (hframe : a.frame = r.frame (S.version c))
    {env : ServerEnv} (henv : env.HEADER_VERSION = S.HEADER_VERSION) :
    ¬ (env.processFrame a.uid a.frame).ret < 0 ∧
      ∃ p, Answers S ⟨(env.processFrame a.uid a.frame).worker a.fd, some ⟨a, env⟩⟩ p := by
  rw [hframe]
  have hnull : (r.frame (S.version c)).payload = none → (r.frame (S.version c)).payloadLen = 0 := by
    intro hnone
    have hnil : r.body = [] := by
      by_contra hne
      simp [Request.frame, hne] at hnone
    exact BitVec.eq_of_toNat_eq (by rw [Request.frame, r.toNat_dataLen, hnil]; rfl)
  obtain ⟨retCode, hresp⟩ : ServerEnv.Responds env (r.frame (S.version c)).pHead
      (env.processFrame a.uid (r.frame (S.version c))) :=
    ServerEnv.responds_processReceive a.uid hnull
  have hfuncid : ((r.frame (S.version c)).pHead.funcid.setWidth 32).toNat ≤ 65535 := by
    rw [BitVec.toNat_setWidth]
    omega
  let response : Response := ⟨(r.frame (S.version c)).pHead.funcid.setWidth 32, retCode,
    (r.frame (S.version c)).pHead.requestid, none, env.ts, hfuncid, by decide⟩
  have hspec := hresp
  rw [henv, genRespPack, if_neg (by omega), if_neg (BitVec.not_lt.mpr hS.le),
    if_neg (BitVec.not_le.mpr hS.lt)] at hspec
  refine ⟨?_, (response, env.heap), ?_, ?_⟩
  · have hpositive := hr.1
    rw [Request.genPack_eq hS.version_le hS.version_lt] at hpositive
    rw [Processed.ret, hspec]
    exact not_lt_of_gt hpositive
  · have hsmall : 0 + AMCRespHeader.size < 2 ^ 31 := by decide
    refine @bytes_genRespPack S c _ response env.heap hS hsmall ?_ ?_
    · rw [Processed.worker, hresp, henv]
      rfl
    · rw [Processed.worker, hspec]
      rfl
  · intro h hh
    obtain rfl := Option.some.inj hh
    rw [hframe]
    refine ⟨rfl, rfl, rfl, henv, huid, (env.processFrame a.uid (r.frame (S.version c))).call, ?_⟩
    rw [ServerEnv.respond]
    dsimp only
    rw [← hresp]

theorem answers_processSend (hS : Supported S c) {fd : Fd} {env : ServerEnv}
    (henv : env.HEADER_VERSION = S.HEADER_VERSION) {funcid : BitVec 32} {data : List UInt8}
    (hfuncid : funcid.toNat ≤ 65535) (hdata : data.length + AMCRespHeaderV2.size < 2 ^ 31) :
    ∃ p, Answers S
      ⟨env.processSend funcid fd (some data) (BitVec.ofNat 32 data.length), none⟩ p := by
  have hlt : ((some data).getD []).length < 2 ^ 31 := Nat.lt_of_le_of_lt (Nat.le_add_right _ _) hdata
  let response : Response := ⟨funcid, 0, 0, some data, env.ts, hfuncid, hlt⟩
  refine ⟨(response, env.heap), ?_, fun c hc => by cases hc⟩
  refine @bytes_genRespPack S c _ response env.heap hS ?_ ?_ ?_
  · unfold AMCRespHeaderV2.size at hdata
    unfold AMCRespHeader.size
    exact Nat.lt_of_le_of_lt (Nat.add_le_add_left (by decide) _) hdata
  · rw [ServerEnv.processSend, henv]
    rfl
  · rw [ServerEnv.processSend, henv, genRespPack, if_neg (by omega),
      if_neg (BitVec.not_lt.mpr hS.le), if_neg (BitVec.not_le.mpr hS.lt)]
    rfl

end Entries

section Client
variable {S c} {peer : Peer}

/-- What an entry delivers is what its packet is called back with. -/
theorem delivers_of_called {es : List Entry} {ps : List Sent}
    (hps : List.Forall₂ (Answers S) es ps) : ∀ {calls : List LocalsocketClient.Callback},
      List.Forall₂ Called (ps.map Prod.fst) calls → List.Forall₂ (Delivers S) es calls := by
  induction hps with
  | nil =>
    intro calls h
    cases h
    exact .nil
  | @cons e p es ps hp _ ih =>
    intro calls h
    cases h with
    | cons hcall hcalls => exact .cons ⟨p, hp, hcall⟩ (ih hcalls)

theorem wire_answers {es : List Entry} {ps : List Sent} (hps : List.Forall₂ (Answers S) es ps) :
    wire Entry.bytes es = wire (Response.pack S.HEADER_VERSION) ps := by
  induction hps with
  | nil => rfl
  | cons hp _ ih => rw [wire_cons, wire_cons, hp.bytes, ih]

namespace Received
variable (h : Received S peer)
include h

/-- More is pushed for the client and handed to the kernel. -/
theorem more (bytes : List UInt8) (es : List Entry) :
    Received S { peer with queued := peer.queued ++ es, down := peer.down ++ bytes } := by
  obtain ⟨done, rest, part, heq, hrest⟩ := h.framed
  refine ⟨h.taken.trans (List.prefix_append _ _), done, rest ++ es, part, ?_, hrest⟩
  rw [← List.append_assoc, ← heq]

/-- A chunk that ends well: the packets it completes are called back, and no more. -/
theorem take (hS : Supported S c) (hanswers : ∀ e ∈ peer.queued, ∃ p, Answers S e p)
    (hdown : peer.down <+: wire Entry.bytes peer.queued) {bs : List UInt8} {beyond : Nat → UInt8}
    (hne : bs ≠ []) (hlen : bs.length ≤ bufferSize) (htake : peer.taken ++ bs <+: peer.down)
    (hfine : ¬ Inside Entry.bytes AMCRespHeader.size peer.queued (peer.taken.length + bs.length))
    {r : LocalsocketClient.RecvResult}
    (hr : LocalsocketClient.recvEvent (bufferSize + 2) peer.st ⟨bs, beyond⟩ = some r) :
    Received S { peer with
      taken := peer.taken ++ bs, st := r.st, calls := peer.calls ++ r.calls } := by
  obtain ⟨done, rest, part, heq, htaken, hlt, hholds, hcalls⟩ := h.framed
  obtain ⟨ys, hys⟩ := htake.trans hdown
  have hrest : (part ++ bs) ++ ys = wire Entry.bytes rest := by
    rw [heq, wire_append, htaken, List.append_assoc, List.append_assoc] at hys
    rw [List.append_assoc]
    exact List.append_cancel_left hys
  obtain ⟨next, later, part', rfl, hsplit, hbegun⟩ := exists_cut _ hrest
  have hlength : part.length + bs.length = (wire Entry.bytes next).length + part'.length := by
    rw [← List.length_append, hsplit, List.length_append]
  have hpart' : part'.length < AMCRespHeader.size := by
    refine @length_part_of_not_inside _ _ _ _ (done ++ next) later part' (by decide) hbegun ?_
    rw [List.append_assoc, ← heq, wire_append, List.length_append, Nat.add_assoc, ← hlength,
      ← Nat.add_assoc, ← List.length_append, ← htaken]
    exact hfine
  rw [heq] at hanswers
  obtain ⟨ps, hps⟩ := exists_forall₂ fun e he =>
    hanswers e (List.mem_append_right _ (List.mem_append_left _ he))
  obtain ⟨qs, hqs⟩ := exists_forall₂ fun e he =>
    hanswers e (List.mem_append_right _ (List.mem_append_right _ he))
  rw [wire_answers hps] at hsplit hlength
  have hshort {part : List UInt8} (hlt : part.length < AMCRespHeader.size) (p : Sent) :
      LocalsocketClient.Pending S.HEADER_VERSION part p :=
    ⟨(Response.length_pack hS.le p).symm ▸ Nat.lt_of_lt_of_le hlt (p.1.size_le _),
      Nat.le_of_lt hlt, fun heq => absurd heq (Nat.ne_of_lt hlt)⟩
  have hbegun' : Begun (Response.pack S.HEADER_VERSION) part' qs := by
    cases hqs with
    | nil => exact hbegun
    | cons hq _ =>
      rw [Begun, ← hq.bytes]
      exact hbegun
  have hout : ∀ p later, qs = p :: later →
      ¬ badCut S.HEADER_VERSION p.1 (later.map Prod.fst) part'.length := by
    intro p later _
    rw [badCut, if_neg (BitVec.not_le.mpr hS.lt)]
    exact Nat.not_le.mpr hpart'
  have hcount : 2 + ps.length ≤ bufferSize + 2 := by
    have hle := @le_length_wire _ _ (Response.pack S.HEADER_VERSION) AMCRespHeader.size ps
      fun p _ => (Response.length_pack hS.le p).symm ▸ p.1.size_le _
    unfold AMCRespHeader.size at hle hlt
    unfold bufferSize at hlen ⊢
    omega
  rcases LocalsocketClient.recvEvent_good hS.le hholds hne (fun p _ => hshort hlt p) hsplit hbegun'
    hout with ⟨st', calls, hst', -, hcalled, hevent⟩ | ⟨p, st', calls, hjson, -⟩
  · rw [LocalsocketClient.recvEvent] at hr
    have hevent' := hevent beyond
    rw [LocalsocketClient.recvEvent] at hevent'
    obtain rfl := Option.some.inj (hr.symm.trans (LocalsocketClient.recvLoop_mono _ hcount hevent'))
    refine ⟨htake, done ++ next, later, part', ?_, ?_, hpart', hst',
      List.rel_append hcalls (delivers_of_called hps hcalled)⟩
    · rw [heq, List.append_assoc]
    · dsimp only
      rw [htaken, List.append_assoc, hsplit, wire_append, wire_answers hps, List.append_assoc]
  · exact absurd hjson (BitVec.not_le.mpr hS.lt)

end Received

end Client

end ClientServer

end Hardcoder
