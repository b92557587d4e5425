import Hardcoder.ClientServerLink

/-! The requests a client pushes reach `processReceive`, and what the server pushes for the
client reaches its `onCallback`: each once and in order, whatever the threads of all clients
and of the server do in between, and whichever other connections come and go. -/

namespace Hardcoder
open Stream Runs
set_option autoImplicit false

namespace ClientServer
open LocalSocket (Fd Ptr)
open LocalSocketServer (Conn)

namespace Sys
variable (s : Sys) (c : Conn) (fd : Fd)

def handledFor : List Handled := s.handled.filter (·.conn = c)

def workFor : List (ReqFrame UInt8) := (s.work.filter (·.conn = c)).map Assembled.frame

/-- The requests assembled so far. -/
def framesFor : List (ReqFrame UInt8) := (s.handledFor c).map (·.frame) ++ s.workFor c

/-- The entries for the connection, which has the descriptor. -/
def entries : List Entry := (s.peers c).queued ++ entriesFor fd s.pushing.toList

end Sys

/-- What packs were made of for a descriptor, and will be. -/
def given (socket : LocalSocket.Sys) (respQueue : List Entry) (fd : Fd) : List UInt8 :=
  socket.pushedTo fd ++ socket.made.flatMap (LocalSocket.rest socket.heap fd) ++
    wire Entry.bytes (entriesFor fd respQueue)

variable (S : Setting) (c : Conn) (fd : Fd)

/-- The connection has the descriptor, and no `send` of either side has failed on it. -/
def Up (s : Sys) : Prop :=
  s.conns fd = some c ∧ S.own c ∉ (s.peers c).socket.refused ∧ fd ∉ s.socket.refused

/-- Nothing is left of the connections that had the descriptor before. -/
def Fresh (s : Sys) : Prop :=
  s.mapRecvCache fd = none ∧ entriesFor fd s.respQueue = [] ∧
    s.socket.made.flatMap (LocalSocket.rest s.socket.heap fd) = [] ∧ s.socket.unsent fd = []

instance (s : Sys) : Decidable (Fresh fd s) := inferInstanceAs (Decidable (_ ∧ _ ∧ _ ∧ _))

/-- The connection gets a fresh descriptor, and a chunk the server or the client reads from it
does not end in the body of a packet. -/
def Fine (s : Sys) : Action → Prop
  | .accept (some fd) => s.accepted = c → Fresh fd s
  | .recv fd n _ => s.conns fd = some c → ¬ Inside (Request.pack (S.version c)) AMCReqHeader.size
      (s.peers c).requests ((s.peers c).read.length + (s.upChunk S c n).length)
  | .take c' n _ => c' = c → ¬ Inside Entry.bytes AMCRespHeader.size (s.peers c).queued
      ((s.peers c).taken.length + (s.downChunk c n).length)
  | _ => True

instance (s : Sys) : ∀ a, Decidable (Fine S c s a)
  | .accept (some _) | .recv .. | .take .. => inferInstanceAs (Decidable (_ → _))
  | .accept none | .sendReq .. | .client .. | .lose _ | .server _ | .hangUp _ | .process _ | .push
  | .notify .. | .respond _ | .pushPack _ => inferInstanceAs (Decidable True)

/-! ### The invariant -/

/-- The descriptors have different connections, and the server knows their users. -/
structure Described (s : Sys) : Prop where
  accepted : ∀ fd c, s.conns fd = some c → c < s.accepted
  one : ∀ fd fd' c, s.conns fd = some c → s.conns fd' = some c → fd = fd'
  mapUid : ∀ fd c, s.conns fd = some c → s.mapUid.get? fd = some (S.uid c)
  work : ∀ a ∈ s.work, s.conns a.fd = some a.conn ∧ a.uid = S.uid a.conn
  handled : ∀ h ∈ s.handled, h.conn < s.accepted

/-- Nothing has gone over the connection. -/
structure Untouched (peer : Peer) : Prop where
  read : peer.read = []
  queued : peer.queued = []
  down : peer.down = []
  taken : peer.taken = []
  st : peer.st = .new (S.block c)
  calls : peer.calls = []

/-- The entries answer the requests. -/
structure Answered (handled : List Handled) (es : List Entry) : Prop where
  handled : es.filterMap Entry.request = handled
  answers : ∀ e ∈ es, ∃ p, Answers S e p

/-- What holds of a connection that is up. -/
structure Linked (s : Sys) : Prop where
  requested : Requested S c (s.peers c) (s.mapRecvCache fd) (s.framesFor c)
  answered : Answered S (s.handledFor c) (s.entries c fd)
  received : Received S (s.peers c)
  /-- `old` is from the connections before -/
  given : ∃ old, s.socket.handed fd = old ++ (s.peers c).down ∧
    given s.socket s.respQueue fd = old ++ wire Entry.bytes (s.peers c).queued

structure Inv (s : Sys) : Prop where
  described : Described S s
  client : ClientSide S c (s.peers c)
  queue : LocalSocket.Inv s.socket
  /-- only the response thread makes packs -/
  single : s.socket.made.length ≤ 1
  untouched : s.accepted ≤ c → Untouched S c (s.peers c)
  linked : Up S c fd s → Linked S c fd s

section Given
variable {fd} {socket socket' : LocalSocket.Sys} {respQueue : List Entry}

theorem given_loop (hinv : LocalSocket.Inv socket) {a : LocalSocket.Action} (ha : a.ofLoop = true)
    (hs : LocalSocket.step socket a = some socket') :
    given socket' respQueue fd = given socket respQueue fd := by
  obtain ⟨hkeeps, -⟩ := LocalSocket.loop_keeps hinv ha hs
  have hmade : socket'.made.flatMap (LocalSocket.rest socket'.heap fd) =
      socket.made.flatMap (LocalSocket.rest socket.heap fd) := by
    rw [hkeeps.made]
    apply List.flatMap_congr
    intro p hp
    rw [LocalSocket.rest, hkeeps.heap p hp, LocalSocket.rest]
  rw [given, given, hmade, LocalSocket.Sys.pushedTo, hkeeps.pushed, LocalSocket.Sys.pushedTo]

theorem given_append (es : List Entry) : given socket (respQueue ++ es) fd =
    given socket respQueue fd ++ wire Entry.bytes (entriesFor fd es) := by
  rw [given, given, entriesFor_append, wire_append, ← List.append_assoc]

theorem given_pushPack (hinv : LocalSocket.Inv socket) (hsingle : socket.made.length ≤ 1) {p : Ptr}
    (hs : LocalSocket.step socket (.push p) = some socket') :
    socket'.made = [] ∧ given socket' respQueue fd = given socket respQueue fd := by
  obtain ⟨sendPack, hmem, hpack, rfl⟩ := LocalSocket.push_eq hs
  have hmade : socket.made = [p] := by
    obtain ⟨q, hq⟩ := List.length_eq_one_iff.mp
      (Nat.le_antisymm hsingle (List.length_pos_of_mem hmem))
    rw [hq] at hmem ⊢
    rw [List.mem_singleton.mp hmem]
  have herase : socket.made.erase p = [] := by rw [hmade, List.erase_cons_head]
  have hrest : LocalSocket.rest socket.heap fd p = if sendPack.fd = fd then sendPack.data else [] := by
    rw [LocalSocket.rest, hpack]
    dsimp only
    rw [hinv.unsent p hmem sendPack hpack, List.drop_zero]
  refine ⟨herase, ?_⟩
  rw [given, given, hmade, List.flatMap_singleton, hrest, LocalSocket.Sys.pushedTo,
    LocalSocket.Sys.pushedTo]
  dsimp only
  rw [List.erase_cons_head, List.flatMap_nil, List.append_nil, List.flatMap_append,
    List.flatMap_singleton]

theorem given_respond {p : Ptr} {e : Entry} (hmade : socket.made = [])
    (hs : LocalSocket.step socket (.sendData p e.worker.remote e.bytes) = some socket') :
    socket'.made.length ≤ 1 ∧ given socket' respQueue fd = given socket (e :: respQueue) fd := by
  have hentry : wire Entry.bytes (entriesFor fd [e]) =
      if e.worker.remote = fd then e.bytes else [] := by
    split
    · rw [entriesFor_self ‹_›, wire_cons, wire_nil, List.append_nil]
    · rw [entriesFor_other ‹_›, wire_nil]
  rw [given, given, ← List.singleton_append, entriesFor_append, wire_append, hentry, hmade,
    List.flatMap_nil, List.append_nil]
  rcases LocalSocket.sendData_eq hs with ⟨hnil, rfl⟩ | ⟨-, rfl⟩
  · rw [hnil, ite_self, List.nil_append, hmade, List.flatMap_nil, List.append_nil]
    exact ⟨Nat.zero_le 1, rfl⟩
  · dsimp only
    rw [hmade, List.flatMap_singleton, LocalSocket.rest, Function.update_self]
    dsimp only
    rw [List.drop_zero, List.append_assoc]
    exact ⟨Nat.le_refl 1, rfl⟩

end Given

section Descriptors
variable {S} {s s' : Sys}

@[simp] theorem update_self (s : Sys) (c : Conn) (peer : Peer) : (s.update c peer).peers c = peer :=
  Function.update_self ..

theorem update_of_ne {c c' : Conn} (h : c' ≠ c) (s : Sys) (peer : Peer) :
    (s.update c' peer).peers c = s.peers c := Function.update_of_ne (Ne.symm h) ..

namespace Described
variable (h : Described S s)
include h

/-- Only the descriptors and the requests in hand matter. -/
theorem congr {t : Sys} (haccepted : t.accepted = s.accepted) (hconns : t.conns = s.conns)
    (hmapUid : t.mapUid = s.mapUid) (hwork : t.work = s.work) (hhandled : t.handled = s.handled) :
    Described S t := by
  refine ⟨?_, ?_, ?_, ?_, ?_⟩
  · rw [hconns, haccepted]
    exact h.accepted
  · rw [hconns]
    exact h.one
  · rw [hconns, hmapUid]
    exact h.mapUid
  · rw [hconns, hwork]
    exact h.work
  · rw [haccepted, hhandled]
    exact h.handled

theorem close (hwork : s.work = []) (fd : Fd) : Described S (s.close fd) := by
  have hopen {fd' : Fd} {c : Conn} (hc : (s.close fd).conns fd' = some c) : s.conns fd' = some c := by
    rw [Sys.close] at hc
    dsimp only at hc
    by_cases heq : fd' = fd
    · rw [heq, Function.update_self] at hc
      cases hc
    · rwa [Function.update_of_ne heq] at hc
  refine ⟨fun fd' c hc => h.accepted fd' c (hopen hc),
    fun fd' fd'' c hc hc' => h.one fd' fd'' c (hopen hc) (hopen hc'),
    fun fd' c hc => h.mapUid fd' c (hopen hc), fun a ha => ?_, h.handled⟩
  rw [Sys.close, hwork] at ha
  cases ha

theorem accept (hwork : s.work = []) {fd : Fd} {socket : LocalSocket.Sys} :
    Described S { s with
      conns := Function.update s.conns fd (some s.accepted)
      accepted := s.accepted + 1
      mapUid := s.mapUid.set fd (S.uid s.accepted)
      socket := socket } := by
  have hopen {fd' : Fd} {c : Conn} (hc : Function.update s.conns fd (some s.accepted) fd' = some c) :
      (fd' = fd ∧ c = s.accepted) ∨ (fd' ≠ fd ∧ s.conns fd' = some c ∧ c < s.accepted) := by
    by_cases heq : fd' = fd
    · rw [heq, Function.update_self] at hc
      exact .inl ⟨heq, (Option.some.inj hc).symm⟩
    · rw [Function.update_of_ne heq] at hc
      exact .inr ⟨heq, hc, h.accepted fd' c hc⟩
  refine ⟨fun fd' c hc => ?_, fun fd' fd'' c hc hc' => ?_, fun fd' c hc => ?_, fun a ha => ?_,
    fun a ha => Nat.lt_succ_of_lt (h.handled a ha)⟩
  · rcases hopen hc with ⟨-, rfl⟩ | ⟨-, -, hlt⟩
    · exact Nat.lt_succ_self _
    · exact Nat.lt_succ_of_lt hlt
  · rcases hopen hc with ⟨rfl, rfl⟩ | ⟨-, hc, hlt⟩
    · rcases hopen hc' with ⟨rfl, -⟩ | ⟨-, -, hlt⟩
      · rfl
      · exact absurd hlt (Nat.lt_irrefl _)
    · rcases hopen hc' with ⟨-, rfl⟩ | ⟨-, hc', -⟩
      · exact absurd hlt (Nat.lt_irrefl _)
      · exact h.one fd' fd'' c hc hc'
  · rcases hopen hc with ⟨rfl, rfl⟩ | ⟨hne, hc, -⟩
    · exact SortedMap.get?_set_self ..
    · exact (SortedMap.get?_set_of_ne _ hne _).trans (h.mapUid fd' c hc)
  · dsimp only at ha
    rw [hwork] at ha
    cases ha

theorem conn_eq_iff {fd fd' : Fd} {c c' : Conn} (hc : s.conns fd = some c)
    (hc' : s.conns fd' = some c') : c' = c ↔ fd' = fd := by
  constructor
  · rintro rfl
    exact h.one fd' fd c' hc' hc
  · rintro rfl
    exact Option.some.inj (hc'.symm.trans hc)

end Described

end Descriptors

section Step
variable {S c fd} {s s' : Sys}

theorem inv_init : Inv S c fd (init S) where
  described := by
    refine ⟨fun fd c h => ?_, fun fd fd' c h => ?_, fun fd c h => ?_, List.forall_mem_nil _,
      List.forall_mem_nil _⟩
    · cases h
    · cases h
    · cases h
  client := clientSide_new
  queue := LocalSocket.inv_init _
  single := Nat.zero_le _
  untouched := fun _ => ⟨rfl, rfl, rfl, rfl, rfl, rfl⟩
  linked := fun hup => by cases hup.1

theorem workFor_of_map {c' : Conn} {fd' : Fd} {uid : JInt} {frames : List (ReqFrame UInt8)}
    (h : s.work = frames.map fun frame => ⟨c', fd', uid, frame⟩) :
    s.workFor c = if c' = c then frames else [] := by
  rw [Sys.workFor, h]
  split
  · rename_i hc
    rw [List.filter_eq_self.mpr (by simp [hc]), List.map_map]
    exact List.map_id _
  · rename_i hc
    rw [List.filter_eq_nil_iff.mpr (by simp [hc]), List.map_nil]

theorem note_peers (e : Entry) : (s.note e).peers c = { s.peers c with
    queued := (s.peers c).queued ++ if s.conns e.worker.remote = some c then [e] else [] } := by
  unfold Sys.note
  split
  · rename_i hnone
    rw [hnone, if_neg (by simp), List.append_nil]
  · rename_i c' hc'
    by_cases hc : c' = c
    · subst hc
      rw [update_self, hc', if_pos rfl]
    · rw [update_of_ne hc, hc', if_neg (by simpa using hc), List.append_nil]

theorem note_eq (e : Entry) : s.note e = { s with peers := (s.note e).peers } := by
  unfold Sys.note
  split
  · rfl
  · rfl

theorem note_pushing (e : Entry) (pushing : Option Entry) :
    Sys.note { s with pushing := pushing } e = { s.note e with pushing := pushing } := by
  unfold Sys.note
  dsimp only
  split
  · rfl
  · rfl

namespace Inv
variable (h : Inv S c fd s)
include h

/-- A step of another connection's client. -/
theorem other {c' : Conn} (hne : c' ≠ c) (peer : Peer) : Inv S c fd (s.update c' peer) := by
  have hpeer := update_of_ne hne s peer
  refine ⟨h.described.congr rfl rfl rfl rfl rfl, ?_, h.queue, h.single, ?_, fun hup => ?_⟩
  · rw [hpeer]
    exact h.client
  · rw [hpeer]
    exact h.untouched
  · rw [Up, hpeer] at hup
    have hlinked := h.linked hup
    refine ⟨?_, ?_, ?_, ?_⟩
    · rw [hpeer]
      exact hlinked.requested
    · rw [Sys.entries, hpeer]
      exact hlinked.answered
    · rw [hpeer]
      exact hlinked.received
    · rw [hpeer]
      exact hlinked.given

/-- A step of the connection's client. -/
theorem ofClient {peer : Peer} (hclient : ClientSide S c peer)
    (hqueued : peer.queued = (s.peers c).queued) (hdown : peer.down = (s.peers c).down)
    (huntouched : Untouched S c (s.peers c) → Untouched S c peer)
    (hrefused : S.own c ∈ (s.peers c).socket.refused → S.own c ∈ peer.socket.refused)
    (hrequested : Linked S c fd s → Requested S c peer (s.mapRecvCache fd) (s.framesFor c))
    (hreceived : Up S c fd s → Linked S c fd s → Received S peer) :
    Inv S c fd (s.update c peer) := by
  have hpeer := update_self s c peer
  refine ⟨h.described.congr rfl rfl rfl rfl rfl, ?_, h.queue, h.single, fun hle => ?_, fun hup => ?_⟩
  · rw [hpeer]
    exact hclient
  · rw [hpeer]
    exact huntouched (h.untouched hle)
  · rw [Up, hpeer] at hup
    have hup' : Up S c fd s := ⟨hup.1, fun hmem => hup.2.1 (hrefused hmem), hup.2.2⟩
    have hlinked := h.linked hup'
    refine ⟨?_, ?_, ?_, ?_⟩
    · rw [hpeer]
      exact hrequested hlinked
    · rw [Sys.entries, hpeer, hqueued]
      exact hlinked.answered
    · rw [hpeer]
      exact hreceived hup' hlinked
    · rw [hpeer, hqueued, hdown]
      exact hlinked.given

/-- The server's threads go on with what is in its queues. -/
theorem ofServer {t : Sys} (hdescribed : Described S t) (hpeers : t.peers = s.peers)
    (haccepted : t.accepted = s.accepted) (hconns : t.conns fd = some c → s.conns fd = some c)
    (hcache : t.mapRecvCache = s.mapRecvCache) (hhandled : t.handled = s.handled)
    (hwork : t.work = s.work) (hpushing : t.pushing = s.pushing)
    (hqueue : LocalSocket.Inv t.socket) (hsingle : t.socket.made.length ≤ 1)
    (hrefused : fd ∈ s.socket.refused → fd ∈ t.socket.refused)
    (hhanded : t.conns fd = some c → t.socket.handed fd = s.socket.handed fd)
    (hgiven : given t.socket t.respQueue fd = given s.socket s.respQueue fd) : Inv S c fd t := by
  refine ⟨hdescribed, ?_, hqueue, hsingle, ?_, fun hup => ?_⟩
  · rw [hpeers]
    exact h.client
  · rw [hpeers, haccepted]
    exact h.untouched
  · rw [Up, hpeers] at hup
    obtain ⟨hconn, hclient, hserver⟩ := hup
    have hlinked := h.linked ⟨hconns hconn, hclient, fun hmem => hserver (hrefused hmem)⟩
    refine ⟨?_, ?_, ?_, ?_⟩
    · rw [hpeers, hcache, Sys.framesFor, Sys.handledFor, Sys.workFor, hhandled, hwork]
      exact hlinked.requested
    · rw [Sys.entries, hpeers, hpushing, Sys.handledFor, hhandled]
      exact hlinked.answered
    · rw [hpeers]
      exact hlinked.received
    · rw [hpeers, hhanded hconn, hgiven]
      exact hlinked.given

/-- Nothing but the two queues is changed. -/
theorem ofQueues {socket : LocalSocket.Sys} {respQueue : List Entry} (hqueue : LocalSocket.Inv socket)
    (hsingle : socket.made.length ≤ 1) (hrefused : fd ∈ s.socket.refused → fd ∈ socket.refused)
    (hhanded : s.conns fd = some c → socket.handed fd = s.socket.handed fd)
    (hgiven : given socket respQueue fd = given s.socket s.respQueue fd) :
    Inv S c fd { s with socket := socket, respQueue := respQueue } :=
  h.ofServer (h.described.congr rfl rfl rfl rfl rfl) rfl rfl id rfl rfl rfl rfl hqueue hsingle hrefused
    hhanded hgiven

theorem sendReq (hS : Supported S c) {c' : Conn} {p : Ptr} {r : Request}
    (hs : s.sendReq S c' p r = some s') : Inv S c fd s' := by
  unfold Sys.sendReq at hs
  split at hs
  · rename_i hr
    obtain ⟨socket, hstep, rfl⟩ := Option.map_eq_some_iff.mp hs
    by_cases hc : c' = c
    · subst hc
      have hgrows := LocalSocket.step_grows h.client.queue hstep
      refine h.ofClient (h.client.sendReq hS hr hstep) rfl rfl (fun hu => ?_) (hgrows.refused _)
        (fun hlinked => ?_) fun _ hlinked => ?_
      · exact ⟨hu.read, hu.queued, hu.down, hu.taken, hu.st, hu.calls⟩
      · exact ⟨hlinked.requested.read.trans (hgrows.handed _), hlinked.requested.framed⟩
      · exact ⟨hlinked.received.taken, hlinked.received.framed⟩
    · exact h.other hc _
  · obtain rfl := Option.some.inj hs
    exact h

theorem ofClientLoop {c' : Conn} {a : LocalSocket.Action} (ha : a.ofLoop = true)
    {socket : LocalSocket.Sys} (hstep : LocalSocket.step (s.peers c').socket a = some socket) :
    Inv S c fd (s.update c' { s.peers c' with socket := socket }) := by
  by_cases hc : c' = c
  · subst hc
    have hgrows := LocalSocket.step_grows h.client.queue hstep
    refine h.ofClient (h.client.loop ha hstep) rfl rfl (fun hu => ?_) (hgrows.refused _)
      (fun hlinked => ?_) fun _ hlinked => ?_
    · exact ⟨hu.read, hu.queued, hu.down, hu.taken, hu.st, hu.calls⟩
    · exact ⟨hlinked.requested.read.trans (hgrows.handed _), hlinked.requested.framed⟩
    · exact ⟨hlinked.received.taken, hlinked.received.framed⟩
  · exact h.other hc _

theorem clientStep {c' : Conn} {a : LocalSocket.Action} (hs : s.client c' a = some s') :
    Inv S c fd s' := by
  cases a with
  | sendData p fd data => cases hs
  | push p =>
    obtain ⟨socket, hstep, rfl⟩ := Option.map_eq_some_iff.mp hs
    by_cases hc : c' = c
    · subst hc
      have hgrows := LocalSocket.step_grows h.client.queue hstep
      refine h.ofClient (h.client.push hstep) rfl rfl (fun hu => ?_) (hgrows.refused _)
        (fun hlinked => ?_) fun _ hlinked => ?_
      · exact ⟨hu.read, hu.queued, hu.down, hu.taken, hu.st, hu.calls⟩
      · exact hlinked.requested.more hgrows _
      · exact ⟨hlinked.received.taken, hlinked.received.framed⟩
    · exact h.other hc _
  | front =>
    obtain ⟨socket, hstep, rfl⟩ := Option.map_eq_some_iff.mp hs
    exact h.ofClientLoop rfl hstep
  | send canWrite ret =>
    obtain ⟨socket, hstep, rfl⟩ := Option.map_eq_some_iff.mp hs
    exact h.ofClientLoop rfl hstep
  | pop =>
    obtain ⟨socket, hstep, rfl⟩ := Option.map_eq_some_iff.mp hs
    exact h.ofClientLoop rfl hstep
  | select =>
    obtain ⟨socket, hstep, rfl⟩ := Option.map_eq_some_iff.mp hs
    exact h.ofClientLoop rfl hstep

/-- What the kernel has accepted for the client is the start of what was pushed for it. -/
theorem down_prefix (hup : Up S c fd s) : (s.peers c).down <+: wire Entry.bytes (s.peers c).queued := by
  obtain ⟨old, hhanded, hgiven⟩ := (h.linked hup).given
  have hbytes := h.queue.bytes fd hup.2.2
  rw [given, ← hbytes, hhanded, List.append_assoc, List.append_assoc, List.append_assoc] at hgiven
  rw [← List.append_cancel_left hgiven]
  exact List.prefix_append _ _

theorem take (hS : Supported S c) {c' : Conn} {n : Nat} {beyond : Nat → UInt8}
    (hfine : Fine S c s (.take c' n beyond)) (hs : s.take c' n beyond = some s') : Inv S c fd s' := by
  unfold Sys.take at hs
  split at hs
  · rename_i hguard
    obtain ⟨-, -, hne, hn⟩ := hguard
    obtain ⟨r, hr, rfl⟩ := Option.map_eq_some_iff.mp hs
    by_cases hc : c' = c
    · subst hc
      refine h.ofClient ⟨h.client.queue, h.client.made, h.client.pushed, h.client.sendable⟩ rfl rfl
        (fun hu => ?_) id (fun hlinked => ?_) fun hup hlinked => ?_
      · refine absurd ?_ hne
        rw [Sys.downChunk, hu.down, List.drop_nil, List.take_nil]
      · exact ⟨hlinked.requested.read, hlinked.requested.framed⟩
      · have hanswers : ∀ e ∈ (s.peers c').queued, ∃ p, Answers S e p :=
          fun e he => hlinked.answered.answers e (List.mem_append_left _ he)
        exact hlinked.received.take hS hanswers (h.down_prefix hup) hne
          (Nat.le_trans (List.length_take_le _ _) hn)
          (isPrefix_append_take_drop hlinked.received.taken n) (hfine rfl) hr
    · exact h.other hc _
  · cases hs

theorem lose {c' : Conn} (hs : s.lose c' = some s') : Inv S c fd s' := by
  obtain ⟨-, hs⟩ := Option.ite_none_right_eq_some.mp hs
  obtain rfl := Option.some.inj hs
  by_cases hc : c' = c
  · subst hc
    refine h.ofClient ⟨h.client.queue, h.client.made, h.client.pushed, h.client.sendable⟩ rfl rfl
      (fun hu => ?_) id (fun hlinked => ?_) fun _ hlinked => ?_
    · exact ⟨hu.read, hu.queued, hu.down, hu.taken, hu.st, hu.calls⟩
    · exact ⟨hlinked.requested.read, hlinked.requested.framed⟩
    · exact ⟨hlinked.received.taken, hlinked.received.framed⟩
  · exact h.other hc _

/-- A step of the server's `loop` in which nothing is sent. -/
theorem ofServerLoop {a : LocalSocket.Action} (ha : a.ofLoop = true) {socket : LocalSocket.Sys}
    (hs : LocalSocket.step s.socket a = some socket)
    (hhanded : s.conns fd = some c → socket.handed fd = s.socket.handed fd) :
    Inv S c fd { s with socket := socket } := by
  obtain ⟨hkeeps, hgrows⟩ := LocalSocket.loop_keeps h.queue ha hs
  refine h.ofQueues (h.queue.step hs) ?_ (hgrows.refused fd) hhanded (given_loop h.queue ha hs)
  rw [hkeeps.made]
  exact h.single

theorem close (hwork : s.work = []) (fd' : Fd) : Inv S c fd (s.close fd') := by
  refine h.ofServer (h.described.close hwork fd') rfl rfl (fun hc => ?_) rfl rfl rfl rfl h.queue
    h.single id (fun _ => rfl) rfl
  rw [Sys.close] at hc
  dsimp only at hc
  by_cases heq : fd = fd'
  · rw [heq, Function.update_self] at hc
    cases hc
  · rwa [Function.update_of_ne heq] at hc

theorem sent {canWrite : Bool} {ret : Int} {socket : LocalSocket.Sys}
    (hs : LocalSocket.step s.socket (.send canWrite ret) = some socket) :
    Inv S c fd (s.sent socket) := by
  obtain ⟨fd', hfront, hsame⟩ := LocalSocket.send_handed hs
  obtain ⟨hkeeps, hgrows⟩ := LocalSocket.loop_keeps h.queue rfl hs
  have hdescribed := h.described
  rw [Sys.sent, hfront]
  dsimp only
  cases hconn : s.conns fd' with
  | none =>
    refine h.ofServerLoop rfl hs fun hc => hsame fd ?_
    rintro rfl
    cases hconn.symm.trans hc
  | some c' =>
    by_cases hc : c' = c
    · subst hc
      -- the bytes go to the connection
      have hpeer := update_self s c' { s.peers c' with
        down := (s.peers c').down ++ (socket.handed fd').drop (s.socket.handed fd').length }
      refine ⟨h.described.congr rfl rfl rfl rfl rfl, ?_, h.queue.step hs, ?_, fun hle => ?_, fun hup => ?_⟩
      · dsimp only
        rw [hpeer]
        exact ⟨h.client.queue, h.client.made, h.client.pushed, h.client.sendable⟩
      · dsimp only
        rw [hkeeps.made]
        exact h.single
      · exact absurd (hdescribed.accepted fd' c' hconn) (Nat.not_lt.mpr hle)
      · rw [Up] at hup
        dsimp only at hup
        rw [hpeer] at hup
        obtain ⟨hc, hclient, hserver⟩ := hup
        have hlinked := h.linked ⟨hc, hclient, fun hmem => hserver (hgrows.refused fd hmem)⟩
        obtain rfl := hdescribed.one fd' fd c' hconn hc
        have hreceived := hlinked.received.more
          ((socket.handed fd').drop (s.socket.handed fd').length) []
        rw [List.append_nil] at hreceived
        refine ⟨?_, ?_, ?_, ?_⟩
        · dsimp only
          rw [hpeer]
          exact ⟨hlinked.requested.read, hlinked.requested.framed⟩
        · rw [Sys.entries]
          dsimp only
          rw [hpeer]
          exact hlinked.answered
        · dsimp only
          rw [hpeer]
          exact hreceived
        · obtain ⟨old, hhanded, hgiven⟩ := hlinked.given
          obtain ⟨new, hnew⟩ := hgrows.handed fd'
          refine ⟨old, ?_, ?_⟩
          · dsimp only
            rw [hpeer]
            dsimp only
            rw [← List.append_assoc, ← hhanded, ← hnew, List.drop_left]
          · dsimp only
            rw [hpeer, given_loop h.queue rfl hs]
            exact hgiven
    · have hother := h.other hc { s.peers c' with
        down := (s.peers c').down ++ (socket.handed fd').drop (s.socket.handed fd').length }
      refine hother.ofServerLoop rfl hs fun hfd => hsame fd ?_
      rintro rfl
      exact hc (Option.some.inj (hconn.symm.trans hfd))

theorem serverStep {a : LocalSocket.Action} (hs : s.server a = some s') : Inv S c fd s' := by
  unfold Sys.server at hs
  split at hs
  · rename_i hguard
    obtain ⟨⟨hwork, -⟩, hloop, -⟩ := hguard
    obtain ⟨socket, hstep, rfl⟩ := Option.map_eq_some_iff.mp hs
    have hquiet (ha : ∀ canWrite ret, a ≠ .send canWrite ret) : Inv S c fd { s with socket := socket } :=
      h.ofServerLoop hloop hstep fun _ => congrFun (LocalSocket.handed_eq ha hstep) fd
    cases a with
    | sendData p fd data => cases hloop
    | push p => cases hloop
    | front => exact hquiet fun _ _ => LocalSocket.Action.noConfusion
    | send canWrite ret => exact h.sent hstep
    | pop =>
      have hpop := hquiet fun _ _ => LocalSocket.Action.noConfusion
      dsimp only
      rw [Sys.popped]
      split
      · exact hpop
      · exact hpop.close hwork _
    | select => exact hquiet fun _ _ => LocalSocket.Action.noConfusion
  · cases hs

theorem respond {p : Ptr} (hs : s.respond p = some s') : Inv S c fd s' := by
  unfold Sys.respond at hs
  split at hs
  · cases hs
  · rename_i e queue hqueue
    split at hs
    · rename_i hmade
      obtain ⟨socket, hstep, rfl⟩ := Option.map_eq_some_iff.mp hs
      obtain ⟨hsingle, hgiven⟩ := @given_respond fd s.socket socket queue p e hmade hstep
      have hhanded := LocalSocket.handed_eq (fun _ _ => LocalSocket.Action.noConfusion) hstep
      refine h.ofQueues (h.queue.step hstep) hsingle
        ((LocalSocket.step_grows h.queue hstep).refused fd) (fun _ => congrFun hhanded fd) ?_
      rw [hqueue]
      exact hgiven
    · cases hs

theorem pushPack {p : Ptr} (hs : s.pushPack p = some s') : Inv S c fd s' := by
  obtain ⟨socket, hstep, rfl⟩ := Option.map_eq_some_iff.mp hs
  obtain ⟨hmade, hgiven⟩ := @given_pushPack fd s.socket socket s.respQueue h.queue h.single p hstep
  have hhanded := LocalSocket.handed_eq (fun _ _ => LocalSocket.Action.noConfusion) hstep
  refine h.ofQueues (h.queue.step hstep) ?_ ((LocalSocket.step_grows h.queue hstep).refused fd)
    (fun _ => congrFun hhanded fd) hgiven
  rw [hmade]
  exact Nat.zero_le 1

theorem hangUp {fd' : Fd} (hs : s.hangUp fd' = some s') : Inv S c fd s' := by
  obtain ⟨⟨⟨hwork, -⟩, -⟩, hs⟩ := Option.ite_none_right_eq_some.mp hs
  obtain rfl := Option.some.inj hs
  exact h.close hwork fd'

/-- The connection starts with nothing in the server. -/
theorem linked_of_fresh (hS : Supported S c) (haccepted : s.accepted = c) (hfree : s.Free)
    (hfresh : Fresh fd s) (hrefused : fd ∉ s.socket.refused) : Linked S c fd s := by
  obtain ⟨hcache, hqueue, hmade, hunsent⟩ := hfresh
  have hu := h.untouched (Nat.le_of_eq haccepted)
  have hhandled : s.handledFor c = [] := by
    apply List.filter_eq_nil_iff.mpr
    intro a ha hc
    have hlt := h.described.handled a ha
    rw [of_decide_eq_true hc, haccepted] at hlt
    exact Nat.lt_irrefl c hlt
  have hwork : s.workFor c = [] := by rw [Sys.workFor, hfree.1]; rfl
  have hentries : s.entries c fd = [] := by rw [Sys.entries, hu.queued, hfree.2]; rfl
  refine ⟨?_, ?_, ?_, s.socket.handed fd, ?_, ?_⟩
  · rw [hcache, Sys.framesFor, hhandled, hwork]
    refine ⟨?_, [], (s.peers c).requests, [], rfl, ?_, by decide, rfl, rfl⟩
    · rw [hu.read]
      exact List.nil_prefix
    · rw [hu.read]
      rfl
  · rw [hentries, hhandled]
    exact ⟨rfl, List.forall_mem_nil _⟩
  · refine ⟨?_, [], [], [], hu.queued, hu.taken, by decide, ?_, ?_⟩
    · rw [hu.taken]
      exact List.nil_prefix
    · rw [hu.st]
      exact LocalsocketClient.holds_new hS.block
    · rw [hu.calls]
      exact .nil
  · rw [hu.down, List.append_nil]
  · rw [given, hmade, hqueue, hu.queued, ← h.queue.bytes fd hrefused, hunsent, List.append_nil,
      List.append_nil]

theorem accept (hS : Supported S c) {r : Option Fd} (hfine : Fine S c s (.accept r))
    (hs : s.accept S r = some s') : Inv S c fd s' := by
  unfold Sys.accept at hs
  obtain ⟨⟨hfree, -⟩, hs⟩ := Option.ite_none_right_eq_some.mp hs
  have hdescribed := h.described
  cases r with
  | none =>
    obtain rfl := Option.some.inj hs
    exact h.ofQueues (h.queue.setPc rfl) h.single id (fun _ => rfl) rfl
  | some fd' =>
    obtain ⟨-, hs⟩ := Option.ite_none_right_eq_some.mp hs
    obtain rfl := Option.some.inj hs
    refine ⟨hdescribed.accept hfree.1, h.client, h.queue.setPc ?_, h.single,
      fun hle => h.untouched (Nat.le_of_succ_le hle), fun hup => ?_⟩
    · split
      · rfl
      · rfl
    obtain ⟨hconn, hclient, hserver⟩ := hup
    have hlinked : Linked S c fd s := by
      dsimp only at hconn
      by_cases heq : fd = fd'
      · subst heq
        rw [Function.update_self] at hconn
        have haccepted := Option.some.inj hconn
        exact h.linked_of_fresh hS haccepted hfree (hfine haccepted) hserver
      · rw [Function.update_of_ne heq] at hconn
        exact h.linked ⟨hconn, hclient, hserver⟩
    exact ⟨hlinked.requested, hlinked.answered, hlinked.received, hlinked.given⟩

theorem recv (hS : Supported S c) {fd' : Fd} {n : Nat} {beyond : Nat → UInt8}
    (hfine : Fine S c s (.recv fd' n beyond)) (hs : s.recv S fd' n beyond = some s') :
    Inv S c fd s' := by
  obtain ⟨c', hconn, hs⟩ := Option.bind_eq_some_iff.mp hs
  obtain ⟨⟨⟨hnone, -⟩, -, -, -, hn⟩, hs⟩ := Option.ite_none_right_eq_some.mp hs
  obtain ⟨r, hr, rfl⟩ := Option.map_eq_some_iff.mp hs
  have hdescribed := h.described
  have hwork : s.workFor c = [] := by rw [Sys.workFor, hnone]; rfl
  let peer : Peer := { s.peers c' with read := (s.peers c').read ++ s.upChunk S c' n }
  let t : Sys := { s.update c' peer with
    mapRecvCache := Function.update s.mapRecvCache fd' r.cache
    work := r.frames.map fun frame => ⟨c', fd', (s.mapUid.get? fd').getD 0, frame⟩ }
  change Inv S c fd t
  have hwork' : t.workFor c = if c' = c then r.frames else [] := workFor_of_map rfl
  have hdescribed' : Described S t := by
    refine ⟨hdescribed.accepted, hdescribed.one, hdescribed.mapUid, fun a ha => ?_, hdescribed.handled⟩
    obtain ⟨frame, -, rfl⟩ := List.mem_map.mp ha
    refine ⟨hconn, ?_⟩
    rw [hdescribed.mapUid fd' c' hconn, Option.getD_some]
  by_cases hc : c' = c
  · subst hc
    have hpeer : t.peers c' = peer := update_self ..
    refine ⟨hdescribed', ?_, h.queue, h.single, fun hle => ?_, fun hup => ?_⟩
    · rw [hpeer]
      exact ⟨h.client.queue, h.client.made, h.client.pushed, h.client.sendable⟩
    · exact absurd (hdescribed.accepted fd' c' hconn) (Nat.not_lt.mpr hle)
    rw [Up, hpeer] at hup
    obtain ⟨hfd, hclient, hserver⟩ := hup
    have hlinked := h.linked ⟨hfd, hclient, hserver⟩
    obtain rfl := hdescribed.one fd' fd c' hconn hfd
    have hrequested := hlinked.requested.recv hS h.client hclient
      (Nat.le_trans (List.length_take_le _ _) hn)
      (isPrefix_append_take_drop hlinked.requested.read n) (hfine hconn) hr
    rw [Sys.framesFor, hwork, List.append_nil] at hrequested
    rw [if_pos rfl] at hwork'
    refine ⟨?_, ?_, ?_, ?_⟩
    · rw [hpeer, show t.mapRecvCache fd' = r.cache from Function.update_self .., Sys.framesFor, hwork']
      exact hrequested
    · rw [Sys.entries, hpeer]
      exact hlinked.answered
    · rw [hpeer]
      exact ⟨hlinked.received.taken, hlinked.received.framed⟩
    · rw [hpeer]
      exact hlinked.given
  · have hother := h.other hc peer
    refine ⟨hdescribed', hother.client, hother.queue, hother.single, hother.untouched, fun hup => ?_⟩
    have hlinked := hother.linked hup
    have hfd : fd ≠ fd' := by
      rintro rfl
      exact hc (Option.some.inj (hconn.symm.trans hup.1))
    rw [if_neg hc, ← hwork] at hwork'
    refine ⟨?_, hlinked.answered, hlinked.received, hlinked.given⟩
    rw [show t.mapRecvCache fd = s.mapRecvCache fd from Function.update_of_ne hfd _ _, Sys.framesFor,
      hwork']
    exact hlinked.requested

theorem process (hS : Supported S c) {env : ServerEnv} (hs : s.process S env = some s') :
    Inv S c fd s' := by
  unfold Sys.process at hs
  split at hs
  · cases hs
  rename_i a work hwork
  obtain ⟨⟨hpushing, henv⟩, hs⟩ := Option.ite_none_right_eq_some.mp hs
  obtain rfl := Option.some.inj hs
  have hdescribed := h.described
  have hall := hdescribed.work
  rw [hwork] at hall
  obtain ⟨⟨hconn, huid⟩, hrest⟩ := List.forall_mem_cons.mp hall
  refine ⟨⟨hdescribed.accepted, hdescribed.one, hdescribed.mapUid, hrest, ?_⟩, h.client, h.queue,
    h.single, h.untouched, fun hup => ?_⟩
  · exact List.forall_mem_append.mpr
      ⟨hdescribed.handled, List.forall_mem_singleton.mpr (hdescribed.accepted _ _ hconn)⟩
  have hlinked := h.linked hup
  have hanswered := hlinked.answered
  rw [Sys.entries, hpushing, Option.toList_none, entriesFor, List.filter_nil, List.append_nil]
    at hanswered
  obtain ⟨hhandled, hanswers⟩ := hanswered
  have hiff := hdescribed.conn_eq_iff hup.1 hconn
  by_cases hc : a.conn = c
  · have hframes : s.framesFor c = (s.handledFor c).map (·.frame) ++
        a.frame :: (work.filter (·.conn = c)).map Assembled.frame := by
      simp [Sys.framesFor, Sys.workFor, hwork, hc]
    have hmem : a.frame ∈ s.framesFor c := by
      rw [hframes]
      exact List.mem_append_right _ List.mem_cons_self
    obtain ⟨r, hr, hframe⟩ := hlinked.requested.frame_mem hmem
    obtain ⟨hret, p, hp⟩ := answers_process hS huid (h.client.sendable r hr) hframe henv
    have hself := @entriesFor_self fd
      ⟨(env.processFrame a.uid a.frame).worker a.fd, some ⟨a, env⟩⟩ (hiff.mp hc)
    refine ⟨?_, ⟨?_, ?_⟩, hlinked.received, hlinked.given⟩
    · have hsame := hlinked.requested
      rw [hframes] at hsame
      simpa [Sys.framesFor, Sys.handledFor, Sys.workFor, hc] using hsame
    · rw [Sys.entries]
      dsimp only
      rw [if_neg hret, Option.toList_some, hself, List.filterMap_append, hhandled]
      simp [Sys.handledFor, hc]
    · rw [Sys.entries]
      dsimp only
      rw [if_neg hret, Option.toList_some, hself]
      exact List.forall_mem_append.mpr ⟨hanswers, List.forall_mem_singleton.mpr ⟨p, hp⟩⟩
  · have hnone {processed : Processed} {x : Option Handled} :
        entriesFor fd (if processed.ret < 0 then none else
          some ⟨processed.worker a.fd, x⟩ : Option Entry).toList = [] := by
      split
      · rfl
      · exact entriesFor_other fun heq => hc (hiff.mpr heq)
    refine ⟨?_, ⟨?_, ?_⟩, hlinked.received, hlinked.given⟩
    · have hsame := hlinked.requested
      simpa [Sys.framesFor, Sys.handledFor, Sys.workFor, hwork, hc] using hsame
    · rw [Sys.entries]
      dsimp only
      rw [hnone, List.append_nil, hhandled]
      simp [Sys.handledFor, hc]
    · rw [Sys.entries]
      dsimp only
      rw [hnone, List.append_nil]
      exact hanswers

/-- An entry that is pushed to `respQueue` by the thread in `loop` or by another. -/
theorem enqueue {e : Entry} {pushing : Option Entry}
    (hanswered : Linked S c fd s → Answered S (s.handledFor c)
      ((s.peers c).queued ++ entriesFor fd [e] ++ entriesFor fd pushing.toList)) :
    Inv S c fd { s.note e with respQueue := s.respQueue ++ [e], pushing := pushing } := by
  have hpeer := @note_peers c s e
  have hdescribed := h.described
  rw [note_eq]
  refine ⟨h.described.congr rfl rfl rfl rfl rfl, ?_, h.queue, h.single, fun hle => ?_, fun hup => ?_⟩
  · dsimp only
    rw [hpeer]
    exact ⟨h.client.queue, h.client.made, h.client.pushed, h.client.sendable⟩
  · have hother : s.conns e.worker.remote ≠ some c := fun hc =>
      Nat.not_lt.mpr hle (hdescribed.accepted _ _ hc)
    dsimp only
    rw [hpeer, if_neg hother, List.append_nil]
    exact h.untouched hle
  rw [Up] at hup
  dsimp only at hup
  rw [hpeer] at hup
  have hlinked := h.linked hup
  have hentry : (if s.conns e.worker.remote = some c then [e] else []) = entriesFor fd [e] := by
    by_cases hfd : e.worker.remote = fd
    · rw [entriesFor_self hfd, hfd, if_pos hup.1]
    · rw [entriesFor_other hfd, if_neg]
      exact fun hc => hfd (hdescribed.one _ _ _ hc hup.1)
  rw [hentry] at hpeer
  refine ⟨?_, ?_, ?_, ?_⟩
  · dsimp only
    rw [hpeer]
    exact ⟨hlinked.requested.read, hlinked.requested.framed⟩
  · rw [Sys.entries]
    dsimp only
    rw [hpeer]
    exact hanswered hlinked
  · have hmore := hlinked.received.more [] (entriesFor fd [e])
    rw [List.append_nil] at hmore
    dsimp only
    rw [hpeer]
    exact hmore
  · obtain ⟨old, hhanded, hgiven⟩ := hlinked.given
    refine ⟨old, ?_, ?_⟩
    · dsimp only
      rw [hpeer]
      exact hhanded
    · dsimp only
      rw [hpeer, given_append, hgiven, wire_append, List.append_assoc]

theorem push (hs : s.push = some s') : Inv S c fd s' := by
  obtain ⟨e, hpushing, hs⟩ := Option.bind_eq_some_iff.mp hs
  obtain ⟨-, hs⟩ := Option.ite_none_right_eq_some.mp hs
  obtain rfl := Option.some.inj hs
  rw [note_pushing]
  refine h.enqueue fun hlinked => ?_
  have hanswered := hlinked.answered
  rw [Sys.entries, hpushing] at hanswered
  rw [Option.toList_none, entriesFor, entriesFor, List.filter_nil, List.append_nil]
  exact hanswered

theorem notify (hS : Supported S c) {env : ServerEnv} {uid : JInt} {funcid : BitVec 32}
    {data : List UInt8} (hs : s.notify S env uid funcid data = some s') : Inv S c fd s' := by
  obtain ⟨fd', -, hs⟩ := Option.bind_eq_some_iff.mp hs
  obtain ⟨⟨henv, hfuncid, hdata⟩, hs⟩ := Option.ite_none_right_eq_some.mp hs
  obtain ⟨-, hs⟩ := Option.ite_none_right_eq_some.mp hs
  obtain rfl := Option.some.inj hs
  obtain ⟨p, hp⟩ := @answers_processSend S c hS fd' env henv funcid data hfuncid hdata
  have hpushing (e : Entry) : (s.note e).pushing = s.pushing := by rw [note_eq]
  refine h.enqueue fun hlinked => ?_
  obtain ⟨hhandled, hanswers⟩ := hlinked.answered
  have hnone {w : ServerDataWorker Fd} : (entriesFor fd [⟨w, none⟩]).filterMap Entry.request = [] := by
    by_cases hremote : w.remote = fd
    · rw [@entriesFor_self fd ⟨w, none⟩ hremote]
      rfl
    · rw [@entriesFor_other fd ⟨w, none⟩ hremote]
      rfl
  rw [Sys.entries, List.filterMap_append] at hhandled
  rw [Sys.entries] at hanswers
  rw [hpushing]
  refine ⟨?_, fun e he => ?_⟩
  · rw [List.filterMap_append, List.filterMap_append, hnone, List.append_nil]
    exact hhandled
  · rcases List.mem_append.mp he with he | he
    · rcases List.mem_append.mp he with he | he
      · exact hanswers e (List.mem_append_left _ he)
      · obtain rfl := List.mem_singleton.mp (List.mem_of_mem_filter he)
        exact ⟨p, hp⟩
    · exact hanswers e (List.mem_append_right _ he)

theorem step (hS : Supported S c) {a : Action} (hfine : Fine S c s a)
    (hs : ClientServer.step S s a = some s') : Inv S c fd s' := by
  cases a with
  | sendReq c' p r => exact h.sendReq hS hs
  | client c' a => exact h.clientStep hs
  | take c' n beyond => exact h.take hS hfine hs
  | lose c' => exact h.lose hs
  | server a => exact h.serverStep hs
  | accept r => exact h.accept hS hfine hs
  | recv fd' n beyond => exact h.recv hS hfine hs
  | hangUp fd' => exact h.hangUp hs
  | process env => exact h.process hS hs
  | push => exact h.push hs
  | notify env uid funcid data => exact h.notify hS hs
  | respond p => exact h.respond hs
  | pushPack p => exact h.pushPack hs

end Inv

end Step

section Exchange
variable {S c fd} {s : Sys}

/-- Nothing is on its way on the connection. -/
structure Settled (S : Setting) (c : Conn) (fd : Fd) (s : Sys) : Prop where
  unsent : (s.peers c).socket.unsent (S.own c) = []
  read : (s.peers c).read = (s.peers c).socket.handed (S.own c)
  work : s.workFor c = []
  pushing : entriesFor fd s.pushing.toList = []
  respQueue : entriesFor fd s.respQueue = []
  made : s.socket.made = []
  unanswered : s.socket.unsent fd = []
  taken : (s.peers c).taken = (s.peers c).down

/-- Every request is handled at most once and in order, each has one answer, and the answers
and notifications are called back at most once and in order; once nothing is on its way, none
is missing. -/
structure Exchanged (S : Setting) (c : Conn) (fd : Fd) (s : Sys) : Prop where
  handled : ∃ k, (s.handledFor c).map (·.frame) ++ s.workFor c =
    ((s.peers c).requests.take k).map (Request.frame (S.version c))
  answered : (s.entries c fd).filterMap Entry.request = s.handledFor c
  answers : ∀ e ∈ s.entries c fd, ∃ p, Answers S e p
  delivered : ∃ k, List.Forall₂ (Delivers S) ((s.peers c).queued.take k) (s.peers c).calls
  settled : Settled S c fd s →
    (s.handledFor c).map (·.frame) = (s.peers c).requests.map (Request.frame (S.version c)) ∧
      (s.peers c).queued.filterMap Entry.request = s.handledFor c ∧
      List.Forall₂ (Delivers S) (s.peers c).queued (s.peers c).calls

theorem eq_nil_of_length_wire {α β : Type} {bytes : α → List β} {n : Nat} {fs : List α}
    (h : ∀ f ∈ fs, n ≤ (bytes f).length) (hlt : (wire bytes fs).length < n) : fs = [] := by
  by_contra hne
  have hle := le_length_wire h
  have hone : 1 ≤ fs.length := List.length_pos_iff.mpr hne
  have hmul : n * 1 ≤ n * fs.length := Nat.mul_le_mul_left n hone
  omega

theorem Requested.settled {peer : Peer} {cache : Option (RecvCache UInt8)}
    {frames : List (ReqFrame UInt8)} (hS : Supported S c) (h : Requested S c peer cache frames)
    (hclient : ClientSide S c peer) (hup : S.own c ∉ peer.socket.refused)
    (hunsent : peer.socket.unsent (S.own c) = [])
    (hread : peer.read = peer.socket.handed (S.own c)) :
    frames = peer.requests.map (Request.frame (S.version c)) := by
  obtain ⟨done, rest, part, heq, hbytes, hlt, -, hframes⟩ := h.framed
  have hall := hclient.handed_unsent hup
  rw [hunsent, List.append_nil, ← hread, hbytes, heq, wire_append] at hall
  have hrest : rest = [] := by
    refine @eq_nil_of_length_wire _ _ (Request.pack (S.version c)) AMCReqHeader.size rest
      (fun r _ => ?_) ?_
    · rw [r.length_pack hS.version_le hS.version_lt]
      exact Nat.le_add_right _ _
    · rw [← List.append_cancel_left hall]
      exact hlt
  rw [hframes, heq, hrest, List.append_nil]

theorem Received.settled {peer : Peer} (hS : Supported S c) (h : Received S peer)
    (hanswers : ∀ e ∈ peer.queued, ∃ p, Answers S e p)
    (htaken : peer.taken = wire Entry.bytes peer.queued) :
    List.Forall₂ (Delivers S) peer.queued peer.calls := by
  obtain ⟨done, rest, part, heq, hbytes, hlt, -, hcalls⟩ := h.framed
  rw [hbytes, heq, wire_append] at htaken
  have hrest : rest = [] := by
    refine @eq_nil_of_length_wire _ _ Entry.bytes AMCRespHeader.size rest (fun e he => ?_) ?_
    · obtain ⟨p, hp⟩ := hanswers e (heq ▸ List.mem_append_right _ he)
      rw [hp.bytes, Response.length_pack hS.le]
      exact p.1.size_le _
    · rw [← List.append_cancel_left htaken]
      exact hlt
  rw [heq, hrest, List.append_nil]
  exact hcalls

theorem Inv.exchanged (hS : Supported S c) (h : Inv S c fd s) (hup : Up S c fd s) :
    Exchanged S c fd s := by
  have hlinked := h.linked hup
  refine ⟨?_, hlinked.answered.handled, hlinked.answered.answers, ?_, fun hsettled => ?_⟩
  · obtain ⟨done, rest, part, heq, -, -, -, hframes⟩ := hlinked.requested.framed
    refine ⟨done.length, ?_⟩
    rw [heq, List.take_left]
    exact hframes
  · obtain ⟨done, rest, part, heq, -, -, -, hcalls⟩ := hlinked.received.framed
    refine ⟨done.length, ?_⟩
    rw [heq, List.take_left]
    exact hcalls
  · have hanswered := hlinked.answered
    rw [Sys.entries, hsettled.pushing, List.append_nil] at hanswered
    refine ⟨?_, hanswered.handled, hlinked.received.settled hS hanswered.answers ?_⟩
    · have hframes := hlinked.requested.settled hS h.client hup.2.1 hsettled.unsent hsettled.read
      rwa [Sys.framesFor, hsettled.work, List.append_nil] at hframes
    · obtain ⟨old, hhanded, hgiven⟩ := hlinked.given
      rw [given, hsettled.respQueue, hsettled.made, List.flatMap_nil, wire_nil, List.append_nil,
        List.append_nil, ← h.queue.bytes fd hup.2.2, hsettled.unanswered, List.append_nil,
        hhanded] at hgiven
      rw [hsettled.taken]
      exact List.append_cancel_left hgiven

/-- Whatever the threads of the server and of all clients do, as long as the connection has a
fresh descriptor, no `send` on it has failed and no chunk that was read from it ended in the
body of a packet. -/
theorem exchanged_of_fine (hS : Supported S c) {as : List Action}
    (hfine : Along (ClientServer.step S) (Fine S c) (init S) as)
    (hrun : run (ClientServer.step S) (init S) as = some s) (hup : Up S c fd s) :
    Exchanged S c fd s :=
  (run_invariant (fun h hfine hs => Inv.step h hS hfine hs) inv_init hfine hrun).exchanged hS hup

def exampleSetting : Setting where
  HEADER_VERSION := HEADER_PROTOCAL_VERSION
  m_fd := 3
  version := fun _ => HEADER_PROTOCAL_VERSION
  own := fun _ => 7
  uid := fun _ => 10001
  block := fun _ => List.replicate AMCRespHeaderV2.size 0

theorem supported_exampleSetting (c : Conn) : Supported exampleSetting c where
  version_le := (by decide : HEADER_PROTOCAL_VERSION ≤ HEADER_PROTOCAL_VERSION)
  version_lt := (by decide : HEADER_PROTOCAL_VERSION < HEADER_JSON_VERSION)
  le := by decide
  lt := by decide
  block := List.length_replicate

/-- One request of connection `c` from `sendReq` to the `onCallback` of its answer. -/
def oneExchange (c : Conn) : List Action :=
  [.sendReq c 0 oneByteRequest, .client c (.push 0), .client c .front, .client c (.send true 33),
    .client c .pop, .recv 5 4096 (fun _ => 0), .process exampleServer, .push, .server .select,
    .respond 0, .pushPack 0, .server .front, .server (.send true 32), .server .pop,
    .take c 4096 (fun _ => 0)]

/-- Descriptor 5 has been another connection's before. -/
def twoConnections : List Action :=
  [.server .front, .accept (some 5)] ++ oneExchange 0 ++
    [.hangUp 5, .accept (some 5)] ++ oneExchange 1

theorem exchanged_of_fine_once :
    ∃ s, run (ClientServer.step exampleSetting) (init exampleSetting) twoConnections = some s ∧
      (s.peers 1).calls.length = 1 ∧ Exchanged exampleSetting 1 5 s := by
  have hrun : (run (ClientServer.step exampleSetting) (init exampleSetting) twoConnections).map
      (fun s => ((s.conns 5, (s.peers 1).socket.refused, s.socket.refused),
        (s.peers 1).calls.length)) = some ((some 1, [], []), 1) := rfl
  have hfine : check (ClientServer.step exampleSetting)
      (fun s a => decide (Fine exampleSetting 1 s a)) (init exampleSetting) twoConnections = true := rfl
  obtain ⟨s, hs, heq⟩ := Option.map_eq_some_iff.mp hrun
  obtain ⟨heq, hcalls⟩ := Prod.mk.inj heq
  obtain ⟨hconn, heq⟩ := Prod.mk.inj heq
  obtain ⟨hclient, hserver⟩ := Prod.mk.inj heq
  have hup : Up exampleSetting 1 5 s := by
    refine ⟨hconn, ?_, ?_⟩
    · rw [hclient]
      exact List.not_mem_nil
    · rw [hserver]
      exact List.not_mem_nil
  exact ⟨s, hs, hcalls, exchanged_of_fine (supported_exampleSetting 1) (along_of_check hfine) hs hup⟩

end Exchange

end ClientServer

end Hardcoder
