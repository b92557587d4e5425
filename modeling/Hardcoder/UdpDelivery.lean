import Hardcoder.UdpReceiving
import Hardcoder.UdpInputBounds

/-! Endpoints connected by a network that loses, repeats, delays and reorders datagrams.
What one of them takes for a peer arrives there in order and once, until a repeated SYN
makes the peer begin again. -/

namespace Hardcoder.UDP
open Stream Runs Relation
set_option autoImplicit false

/-- The endpoints by their addresses. -/
abbrev Net := SockAddr → Udp

namespace Net

def new : Net := fun _ => Udp.new

def set (net : Net) (n : SockAddr) (u : Udp) : Net := Function.update net n u

/-- Whatever was sent to the endpoint may arrive at any later time, again and again. -/
def Arrives (net : Net) (n : SockAddr) : Udp.Action → Prop
  | .receive sender d => (n, d.bytes) ∈ (net sender).sent
  | _ => True

instance (net : Net) (n : SockAddr) (a : Udp.Action) : Decidable (net.Arrives n a) :=
  match a with
  | .receive sender d => inferInstanceAs (Decidable ((n, d.bytes) ∈ (net sender).sent))
  | .send _ | .wake => .isTrue trivial

/-- A step of one of the endpoints. -/
def step (envs : SockAddr → Env) (net : Net) (move : SockAddr × Udp.Action) : Option Net :=
  if net.Arrives move.1 move.2 then
    ((net move.1).step (envs move.1) move.2).map (net.set move.1)
  else none

section Set
variable (net : Net) (n : SockAddr) (u : Udp)

@[simp] theorem set_self : net.set n u n = u := Function.update_self _ _ _

theorem set_of_ne {a : SockAddr} (h : a ≠ n) : net.set n u a = net a := Function.update_of_ne h _ _

@[simp] theorem set_set (v : Udp) : (net.set n u).set n v = net.set n v :=
  Function.update_idem _ _ _

@[simp] theorem set_eq_self : net.set n (net n) = net := Function.update_eq_self _ _

variable {net n u}

theorem sent_set (h : ∀ x ∈ (net n).sent, x ∈ u.sent) {a : SockAddr} {x : SockAddr × List UInt8}
    (hx : x ∈ (net a).sent) : x ∈ (net.set n u a).sent := by
  by_cases ha : a = n
  · subst ha
    rw [set_self]
    exact h x hx
  · rwa [set_of_ne net n u ha]

theorem m_mapReceiver_set (h : u.m_mapReceiver = (net n).m_mapReceiver) (a : SockAddr) :
    (net.set n u a).m_mapReceiver = (net a).m_mapReceiver := by
  by_cases ha : a = n
  · subst ha
    rw [set_self, h]
  · rw [set_of_ne net n u ha]

end Set

/-- The sessions reported as finished ended with the fragments in `done`. -/
structure Finished (frags : List UdpPkg) (done : List Nat) (sids : List (BitVec 64)) : Prop where
  sids : sids = done.map (sessionAt frags)
  nodup : done.Nodup
  last : ∀ k ∈ done, LastAt frags k

theorem Finished.extend {frags more : List UdpPkg} {done : List Nat} {sids : List (BitVec 64)}
    (h : Finished frags done sids) (hmore : frags <+: more) : Finished more done sids := by
  refine ⟨h.sids.trans (List.map_congr_left fun k hk => ?_), h.nodup,
    fun k hk => (h.last k hk).extend hmore⟩
  obtain ⟨f, hf, -⟩ := h.last k hk
  exact (sessionAt_extend (List.getElem?_eq_some_iff.mp hf).1 hmore).symm

/-- The endpoint `a` sends to the endpoint `b`. -/
structure Linked (a b : SockAddr) (clean : Prop) (m r high : Nat) (done : List Nat) (net : Net) :
    Prop where
  sending : (net a).Sending b m high done
  receiving : (net b).Receiving a ((net a).fragmentsTo b) r high clean
  finished : Finished ((net a).fragmentsTo b) done ((net a).finishes b)

structure Link (a b : SockAddr) (clean : Prop) (net : Net) : Prop where
  consistent : ∀ n, (net n).Consistent
  linked : ∃ m r high done, Linked a b clean m r high done net

namespace Link
variable {a b : SockAddr} {clean : Prop} {net : Net} {n : SockAddr} {env : Env}

theorem consistent_set (h : Link a b clean net) {v : Udp} (hv : v.Consistent) :
    ∀ n', (net.set n v n').Consistent := by
  intro n'
  by_cases hn : n' = n
  · subst hn
    rwa [set_self]
  · rw [set_of_ne net n v hn]
    exact h.consistent n'

theorem sendOnly (h : Link a b clean net) {v : Udp} (hconsistent : v.Consistent)
    (hside : (net n).SendOnly v)
    (hsend : ∀ {m high done}, (net n).Sending b m high done →
      (net n).fragmentsTo b <+: v.fragmentsTo b ∧ ∃ m', v.Sending b m' high done) :
    Link a b clean (net.set n v) := by
  refine ⟨h.consistent_set hconsistent, ?_⟩
  obtain ⟨m, r, high, done, hlinked⟩ := h.linked
  have hreceiving {frags : List UdpPkg}
      (hfrags : (net b).Receiving a frags r high clean) :
      (net.set n v b).Receiving a frags r high clean := by
    by_cases hb : b = n
    · subst hb
      rw [set_self]
      exact hfrags.sendOnly hside
    · rwa [set_of_ne net n v hb]
  by_cases ha : a = n
  · subst ha
    obtain ⟨hmore, m', hsending⟩ := hsend hlinked.sending
    refine ⟨m', r, high, done, ?_, ?_, ?_⟩
    · rwa [set_self]
    · rw [set_self]
      exact hreceiving (hlinked.receiving.extend hmore)
    · rw [set_self, congrFun hside.finishes b]
      exact hlinked.finished.extend hmore
  · refine ⟨m, r, high, done, ?_, ?_, ?_⟩
    · rw [set_of_ne net n v ha]
      exact hlinked.sending
    · rw [set_of_ne net n v ha]
      exact hreceiving hlinked.receiving
    · rw [set_of_ne net n v ha]
      exact hlinked.finished

theorem congr (h : Link a b clean net) {v : Udp} (hconsistent : v.Consistent)
    (hside : (net n).SendOnly v) (htaken : v.taken = (net n).taken)
    (hsender : v.m_mapSender = (net n).m_mapSender) (hsent : v.sent = (net n).sent) :
    Link a b clean (net.set n v) := by
  have hfrags : v.fragmentsTo b = (net n).fragmentsTo b := by
    rw [Udp.fragmentsTo, Udp.fragmentsTo, htaken]
  exact h.sendOnly hconsistent hside fun hsending =>
    ⟨hfrags ▸ List.prefix_rfl, _, hsending.congr htaken (by rw [hsender]) hsent⟩

theorem sendStep (h : Link a b clean net) {v : Udp} (hstep : Udp.SendStep env (net n) v) :
    Link a b clean (net.set n v) :=
  h.sendOnly ((h.consistent n).sendStep hstep) (Udp.SendStep.sendOnly hstep)
    fun hsending => hsending.sendStep (h.consistent n) hstep

theorem fire (h : Link a b clean net) {e : EventId} (he : e ∈ (net n).m_eventTimerList) :
    Link a b clean (net.set n ((net n).fire env e)) := by
  refine h.sendOnly ((h.consistent n).fire env he) (Udp.fire_sendOnly (h.consistent n) he)
    fun hsending => ⟨?_, _, hsending.fire (h.consistent n) he⟩
  rw [Udp.fragmentsTo, Udp.fragmentsTo, Udp.fire_taken (h.consistent n) he]

theorem receiveSide (h : Link a b clean net) {sender : SockAddr} {p : UdpPkg} {v : Udp}
    (hside : (net n).ReceiveSide sender p v)
    (hpeer : n = b → sender = a → ∀ {m r high done}, Linked a b clean m r high done net →
      ∃ r' high', high ≤ high' ∧ high' ≤ m ∧
        v.Receiving a ((net a).fragmentsTo b) r' high' clean) :
    Link a b clean (net.set n v) := by
  refine ⟨h.consistent_set (hside.consistent (h.consistent n)), ?_⟩
  obtain ⟨m, r, high, done, hlinked⟩ := h.linked
  obtain ⟨r', high', hle, hm, hreceiving⟩ : ∃ r' high', high ≤ high' ∧ high' ≤ m ∧
      (net.set n v b).Receiving a ((net a).fragmentsTo b) r' high' clean := by
    by_cases hb : n = b
    · subst hb
      rw [set_self]
      by_cases ha : sender = a
      · exact hpeer rfl ha hlinked
      · exact ⟨r, high, Nat.le_refl _, hlinked.sending.high_le, hlinked.receiving.other hside ha⟩
    · rw [set_of_ne net n v (Ne.symm hb)]
      exact ⟨r, high, Nat.le_refl _, hlinked.sending.high_le, hlinked.receiving⟩
  have hraised := hlinked.sending.raise hle hm hreceiving.high_lt
  refine ⟨m, r', high', done, ?_⟩
  by_cases ha : a = n
  · subst ha
    have hfrags : (net.set a v a).fragmentsTo b = (net a).fragmentsTo b := by
      rw [set_self, Udp.fragmentsTo, Udp.fragmentsTo, hside.taken]
    have hfinishes : (net.set a v a).finishes b = (net a).finishes b := by
      rw [set_self]
      exact hside.finishes b
    refine ⟨?_, hfrags ▸ hreceiving, ?_⟩
    · rw [set_self]
      exact hraised.receiveSide hside
    · rw [hfrags, hfinishes]
      exact hlinked.finished
  · have hsame := set_of_ne net n v ha
    exact ⟨hsame ▸ hraised, hsame ▸ hreceiving, hsame ▸ hlinked.finished⟩

theorem receiveAck (h : Link a b clean net) {sender : SockAddr} {p : UdpPkg}
    (hack : n = a → sender = b → ∀ {m r high done}, Linked a b clean m r high done net →
      Acknowledges ((net a).fragmentsTo b) high p) :
    Link a b clean (net.set n ((net n).receiveAck sender p)) := by
  have hconsistent := h.consistent n
  refine ⟨h.consistent_set hconsistent.receiveAck, ?_⟩
  obtain ⟨m, r, high, done, hlinked⟩ := h.linked
  have hhigh := hlinked.sending.high_lt
  have hreceiving : (net.set n ((net n).receiveAck sender p) b).Receiving a
      ((net a).fragmentsTo b) r high clean := by
    by_cases hb : b = n
    · subst hb
      rw [set_self]
      exact hlinked.receiving.receiveAck hconsistent sender p
    · rw [set_of_ne net n _ hb]
      exact hlinked.receiving
  by_cases ha : a = n
  · subst ha
    have hlow : sender = b → ∀ k, high ≤ k → k < m → p.seq ≠ BitVec.ofNat 32 (100001 + k) :=
      fun hb k hlo hk => (hack rfl hb hlinked).seq_ne hhigh hlo
        (Nat.lt_of_lt_of_le hk hlinked.sending.m_le)
    obtain ⟨hfrags, done', hdone, hsending⟩ := hlinked.sending.receiveAck hconsistent hlow
    have hfinished : Finished ((net a).fragmentsTo b) done'
        (((net a).receiveAck sender p).finishes b) := by
      generalize ((net a).receiveAck sender p).finishes b = sids at hdone
      cases hdone with
      | same => exact hlinked.finished
      | @finish k q hb hk hnew hq hseq hlast =>
        have hacks := (hack rfl hb hlinked).of_numbered hhigh hk hq hseq
        obtain ⟨f, hf, rfl⟩ := hq
        refine ⟨?_, ?_, fun j hj => ?_⟩
        · have hsid : p.sessionid = sessionAt ((net a).fragmentsTo b) k := by
            rw [hacks.sessionid, sessionAt, hf]
            rfl
          rw [hlinked.finished.sids, List.map_append, hsid]
          rfl
        · rw [List.nodup_append]
          exact ⟨hlinked.finished.nodup, List.nodup_singleton k, fun j hj l hl heq =>
            hnew (by rwa [heq, List.mem_singleton.mp hl] at hj)⟩
        · rcases List.mem_append.mp hj with hj | hj
          · exact hlinked.finished.last j hj
          · obtain rfl := List.mem_singleton.mp hj
            refine ⟨f, hf, ?_⟩
            have htotal : p.totallen = f.totallen := hacks.totallen
            have hoffset : p.offset = f.offset + f.datalen.setWidth 32 := hacks.offset
            rw [← htotal, ← hoffset, hlast]
    refine ⟨m, r, high, done', ?_, ?_, ?_⟩
    · rwa [set_self]
    · rwa [set_self, hfrags]
    · rwa [set_self, hfrags]
  · refine ⟨m, r, high, done, ?_⟩
    have hsame := set_of_ne net n ((net n).receiveAck sender p) ha
    exact ⟨hsame ▸ hlinked.sending, hsame ▸ hreceiving, hsame ▸ hlinked.finished⟩

theorem loopHead (h : Link a b clean net) : Link a b clean (net.set n ((net n).loopHead env).1) := by
  have hconsistent : Udp.Consistent { net n with ticks := (net n).ticks + 1 } :=
    (h.consistent n).congr rfl rfl rfl
  have hstart : Link a b clean (net.set n { net n with ticks := (net n).ticks + 1 }) :=
    h.congr hconsistent (.congr ⟨rfl, rfl, rfl⟩ rfl rfl) rfl rfl rfl
  refine @steps_invariant _ (Udp.SendStep env) (fun v => Link a b clean (net.set n v))
    (fun {v v'} hv hstep => ?_) _ _ hstart (Udp.checkSendQueue_steps env _)
  rw [← net.set_self n v] at hstep
  have hnext := hv.sendStep hstep
  rwa [set_set] at hnext

theorem finish (h : Link a b clean net) (ret : Int) :
    Link a b clean (net.set n (Udp.finish (net n, ret))) := by
  unfold Udp.finish
  split
  · exact h.congr ((h.consistent n).congr rfl rfl rfl) (.congr ⟨rfl, rfl, rfl⟩ rfl rfl) rfl rfl rfl
  · rwa [set_eq_self]

end Link

/-! ### Datagrams of the peer -/

section Arrival
variable {a b : SockAddr} {clean : Prop} {net : Net} {m r high : Nat} {done : List Nat}
  {d : Delivery UInt8}

theorem Linked.arrival (h : Linked a b clean m r high done net)
    (hsent : (b, d.bytes) ∈ (net a).sent) :
    ∃ p data, Known ((net a).fragmentsTo b) m p ∧
      UdpPkg.decode (Udp.received d) = { p with data := data } ∧
      (p.data.length = p.datalen.toNat → p.datalen.toNat ≤ CONST_MAXPKTSIZE → data = p.data) := by
  obtain ⟨p, hp, hbytes⟩ := h.sending.sent d.bytes hsent
  have hreceived : Udp.received d = ⟨p.bytes.take UdpPkg.size, d.beyond⟩ := by
    rw [Udp.received, hbytes]
  obtain ⟨data, hdata⟩ := UdpPkg.decode_take p d.beyond
  refine ⟨p, data, hp, hreceived ▸ hdata, fun hlen hmax => ?_⟩
  have hsame := hdata.symm.trans (UdpPkg.decode_fits hlen hmax d.beyond)
  exact congrArg UdpPkg.data hsame

theorem fragmentsTo_fits {u : Udp} {f : UdpPkg} {k : Nat} (hf : (u.fragmentsTo b)[k]? = some f) :
    f.data.length = f.datalen.toNat ∧ f.datalen.toNat ≤ CONST_MAXPKTSIZE := by
  obtain ⟨pack, -, hmem⟩ := List.mem_flatMap.mp (List.mem_of_getElem? hf)
  obtain ⟨o, -, rfl⟩ := SendPack.mem_fragments hmem
  obtain ⟨hdatalen, hdata⟩ := pack.fragmentAt_datalen o
  exact ⟨hdata.trans hdatalen.symm, hdatalen ▸ (pack.datalenAt_le o).1⟩

theorem Linked.syn (h : Linked a b clean m r high done net) (hsent : (b, d.bytes) ∈ (net a).sent)
    (htype : (UdpPkg.decode (Udp.received d)).type = PACKAGE_SYN) :
    (UdpPkg.decode (Udp.received d)).seq = 100000 := by
  obtain ⟨p, data, hp, hdecode, -⟩ := h.arrival hsent
  rw [hdecode] at htype ⊢
  cases hp with
  | ack hack => cases hack.symm.trans htype
  | syn hsyn => rw [hsyn]; rfl
  | data hk hnum =>
    obtain ⟨f, -, rfl⟩ := hnum
    cases htype

theorem Linked.data (h : Linked a b clean m r high done net) (hsent : (b, d.bytes) ∈ (net a).sent)
    (htype : (UdpPkg.decode (Udp.received d)).type = PACKAGE_DATA) :
    ∃ k f, k < m ∧ ((net a).fragmentsTo b)[k]? = some f ∧
      UdpPkg.decode (Udp.received d) = dataPkg f k := by
  obtain ⟨p, data, hp, hdecode, hfits⟩ := h.arrival hsent
  rw [hdecode] at htype ⊢
  cases hp with
  | ack hack => cases hack.symm.trans htype
  | syn hsyn =>
    rw [hsyn] at htype
    cases htype
  | @data k hk hnum =>
    obtain ⟨f, hf, rfl⟩ := hnum
    obtain ⟨hlen, hmax⟩ := fragmentsTo_fits hf
    refine ⟨k, f, hk, hf, ?_⟩
    rw [hfits hlen hmax]

theorem Linked.fin (h : Linked a b clean m r high done net) (hsent : (b, d.bytes) ∈ (net a).sent) :
    (UdpPkg.decode (Udp.received d)).type ≠ PACKAGE_FIN := by
  obtain ⟨p, data, hp, hdecode, -⟩ := h.arrival hsent
  rw [hdecode]
  intro htype
  cases hp with
  | ack hack => cases hack.symm.trans htype
  | syn hsyn =>
    rw [hsyn] at htype
    cases htype
  | data hk hnum =>
    obtain ⟨f, -, rfl⟩ := hnum
    cases htype

theorem Linked.ack (h : Linked a b clean m r high done net) (hsent : (a, d.bytes) ∈ (net b).sent)
    (htype : (UdpPkg.decode (Udp.received d)).type = PACKAGE_ACK) :
    Acknowledges ((net a).fragmentsTo b) high (UdpPkg.decode (Udp.received d)) := by
  obtain ⟨p, hbytes, hack⟩ := h.receiving.sent d.bytes hsent
  obtain ⟨data, hdata⟩ := UdpPkg.decode_take p d.beyond
  have hdecode : UdpPkg.decode (Udp.received d) = { p with data := data } := by
    rw [Udp.received, hbytes]
    exact hdata
  rw [hdecode] at htype ⊢
  cases hack htype with
  | syn hseq => exact .syn hseq
  | data hk hq hacks =>
    exact .data hk hq ⟨hacks.type, hacks.seq, hacks.sessionid, hacks.totallen, hacks.offset⟩

end Arrival

/-- A SYN of `a` that arrives at `b` finds no receiver that is open. -/
def Steady (a b : SockAddr) (net : Net) : SockAddr × Udp.Action → Prop
  | (n, .receive sender d) => n = b → sender = a →
    (UdpPkg.decode (Udp.received d)).type = PACKAGE_SYN →
      ∀ rs ∈ (net b).m_mapReceiver.get? a, rs.status = .OPENING
  | _ => True

instance (a b : SockAddr) (net : Net) (move : SockAddr × Udp.Action) :
    Decidable (Steady a b net move) :=
  match move with
  | (n, .receive sender d) => inferInstanceAs (Decidable (n = b → sender = a →
      (UdpPkg.decode (Udp.received d)).type = PACKAGE_SYN →
        ∀ rs ∈ (net b).m_mapReceiver.get? a, rs.status = .OPENING))
  | (_, .send _) | (_, .wake) => .isTrue trivial

theorem Steady.congr {a b : SockAddr} {net net' : Net} {move : SockAddr × Udp.Action}
    (h : Steady a b net move) (hsame : (net' b).m_mapReceiver = (net b).m_mapReceiver) :
    Steady a b net' move := by
  obtain ⟨n, action⟩ := move
  cases action with
  | send pack => trivial
  | wake => trivial
  | receive sender d =>
    unfold Steady at h ⊢
    rwa [hsame]

namespace Link
variable {a b : SockAddr} {clean : Prop} {net : Net} {n : SockAddr} {env : Env}

theorem read (h : Link a b clean net) (accesses : List Access) :
    Link a b clean (net.set n { net n with accesses := accesses }) := by
  have hconsistent := h.consistent n
  have hside : (net n).ReceiveSide n .new { net n with accesses := accesses } :=
    ⟨rfl, rfl, rfl, fun _ _ => rfl, hconsistent.receivers n, ⟨[], (List.append_nil _).symm, by simp⟩,
      fun _ => .inl⟩
  refine h.receiveSide hside fun hn _ m r high done hlinked => ?_
  subst hn
  exact ⟨r, high, Nat.le_refl _, hlinked.sending.high_le, hlinked.receiving.frame rfl rfl fun _ => .inl⟩

theorem handled (h : Link a b clean net) {sender : SockAddr} {d : Delivery UInt8} {recvRet : Nat}
    {out : Udp × Int} (harrives : (n, d.bytes) ∈ (net sender).sent)
    (hsteady : clean → Steady a b net (n, .receive sender d))
    (hhandled : Udp.Handled env (net n) sender (UdpPkg.decode (Udp.received d)) recvRet out) :
    Link a b clean (net.set n out.1) := by
  have hconsistent := h.consistent n
  cases hhandled with
  | ignored => rwa [set_eq_self]
  | syn htype =>
    refine h.receiveSide (Udp.receiveSyn_side env hconsistent htype) fun hn hs m r high done hlinked => ?_
    subst hn hs
    refine ⟨0, high, Nat.le_refl _, hlinked.sending.high_le, ?_⟩
    exact hlinked.receiving.receiveSyn (hlinked.syn harrives htype)
      fun hclean => hsteady hclean rfl rfl htype
  | data htype =>
    refine h.receiveSide (Udp.receiveData_side env hconsistent htype recvRet)
      fun hn hs m r high done hlinked => ?_
    subst hn hs
    obtain ⟨k, f, hk, hf, hdecode⟩ := hlinked.data harrives htype
    obtain ⟨r', high', hhigh', hle, hreceiving⟩ : ∃ r' high', (high' = high ∨ high' = k + 1) ∧
        high ≤ high' ∧ Udp.Receiving sender ((net sender).fragmentsTo n) r' high' clean
          ((net n).receiveData env sender recvRet (dataPkg f k)).1 :=
      hlinked.receiving.receiveData hconsistent hf (Nat.lt_of_lt_of_le hk hlinked.sending.m_le) recvRet
    have hhigh := hlinked.sending.high_le
    refine ⟨r', high', hle, by omega, ?_⟩
    rwa [hdecode]
  | fin htype =>
    refine h.receiveSide (Udp.receiveFin_side env hconsistent htype)
      fun hn hs m r high done hlinked => ?_
    subst hn hs
    exact absurd htype (hlinked.fin harrives)
  | ack htype =>
    refine h.receiveAck fun hn hs m r high done hlinked => ?_
    subst hn hs
    exact hlinked.ack harrives htype

theorem processReceive (h : Link a b clean net) {sender : SockAddr} {d : Delivery UInt8}
    (harrives : (n, d.bytes) ∈ (net sender).sent)
    (hsteady : clean → Steady a b net (n, .receive sender d)) :
    Link a b clean (net.set n ((net n).processReceive env sender d).1) := by
  obtain ⟨accesses, hhandled⟩ := Udp.processReceive_cases env (net n) sender d
  obtain ⟨u, hu⟩ : ∃ u, u = { net n with accesses := accesses } := ⟨_, rfl⟩
  have hread := h.read (n := n) accesses
  rw [← hu] at hhandled hread
  rw [← set_self net n u] at hhandled
  have hsent : (n, d.bytes) ∈ (net.set n u sender).sent :=
    sent_set (fun x hx => by rwa [hu]) harrives
  have hnext := hread.handled hsent (fun hclean => ?_) hhandled
  · rwa [set_set] at hnext
  · exact (hsteady hclean).congr (m_mapReceiver_set (by rw [hu]) b)

theorem step (h : Link a b clean net) {envs : SockAddr → Env} {move : SockAddr × Udp.Action}
    {net' : Net} (hsteady : clean → Steady a b net move) (hstep : net.step envs move = some net') :
    Link a b clean net' := by
  obtain ⟨n, action⟩ := move
  obtain ⟨harrives, hstep⟩ := Option.ite_none_right_eq_some.mp hstep
  obtain ⟨u', hu', rfl⟩ := Option.map_eq_some_iff.mp hstep
  have hhead : Link a b clean (net.set n ((net n).loopHead (envs n)).1) := h.loopHead
  cases Udp.step_cases hu' with
  | send pack hroom =>
    exact h.congr ((h.consistent n).congr rfl rfl rfl) (.congr ⟨rfl, rfl, rfl⟩ rfl rfl) rfl rfl rfl
  | idle hrunning hdue => exact hhead
  | fire e hrunning hdue =>
    obtain ⟨he, -⟩ := Option.filter_eq_some_iff.mp hdue
    have hmem : e ∈ (net.set n ((net n).loopHead (envs n)).1 n).m_eventTimerList := by
      rw [set_self]
      exact List.mem_of_head? he
    have hfire := @fire _ _ _ _ _ (envs n) hhead e hmem
    rwa [set_set, set_self] at hfire
  | receive sender d hrunning hdue =>
    have hside := Udp.loopHead_sendOnly (envs n) (net n)
    have hreceive := @processReceive _ _ _ _ _ (envs n) hhead _ _ (sent_set hside.kept harrives)
      fun hclean => (hsteady hclean).congr (m_mapReceiver_set hside.side.m_mapReceiver b)
    rw [set_set, set_self] at hreceive
    have hfinish := hreceive.finish (n := n) (((net n).loopHead (envs n)).1.processReceive (envs n)
      sender d).2
    rwa [set_set, set_self] at hfinish

theorem new (a b : SockAddr) (clean : Prop) : Link a b clean Net.new := by
  refine ⟨fun _ => Udp.consistent_new, 0, 0, 0, [], Udp.sending_new b, ?_, rfl, List.nodup_nil, ?_⟩
  · refine ⟨Nat.le_refl 0, by decide, Nat.zero_le _, .inl ⟨rfl, rfl⟩, fun x hx => ?_,
      fun _ => ⟨rfl, rfl⟩, fun bytes hbytes => ?_⟩
    · cases hx
    · cases hbytes
  · exact fun k hk => by cases hk

end Link

/-- In order, once and unaltered, as long as no SYN arrives at a receiver that is open. -/
theorem messages_prefix_of_steady {envs : SockAddr → Env} {a b : SockAddr}
    {moves : List (SockAddr × Udp.Action)} {net : Net}
    (hrun : run (step envs) Net.new moves = some net)
    (hsteady : Along (step envs) (Steady a b) Net.new moves) :
    (net b).messages a <+:
      ((net a).taken.filter fun pack => pack.toAddr = b ∧ pack.data ≠ []).map fun pack =>
        (pack.sessionid, pack.data) := by
  have hlink := @run_invariant _ _ (step envs) (Steady a b) (Link a b True)
    (fun h hsteady hstep => h.step (fun _ => hsteady) hstep) _ _ _ (.new a b True) hsteady hrun
  obtain ⟨m, r, high, done, hlinked⟩ := hlink.linked
  rw [(hlinked.receiving.exact trivial).2, reassemble]
  have hfront := messages_front [] (List.take_prefix high ((net a).fragmentsTo b))
  simpa only [List.nil_append, flatMap_delivered, List.filter_filter, Bool.decide_and,
    Bool.and_comm] using hfront

def exampleHost : SockAddr := ⟨1, 1⟩

def examplePack : SendPack := ⟨examplePeer, 1, [7], length_oneByte⟩

/-- The SYN and the fragment of the message, as they arrive. -/
def exampleSyn : SockAddr × Udp.Action :=
  (examplePeer, .receive exampleHost ⟨synPkg.bytes, fun _ => 0⟩)

def exampleData : SockAddr × Udp.Action :=
  (examplePeer, .receive exampleHost ⟨(dataPkg (examplePack.fragmentAt 0) 0).bytes, fun _ => 0⟩)

def exampleMoves : List (SockAddr × Udp.Action) :=
  [(exampleHost, .send examplePack), (exampleHost, .wake), exampleSyn, exampleData]

def secondPack : SendPack := ⟨examplePeer, 2, [8], by decide⟩

def thirdPack : SendPack := ⟨examplePeer, 3, [9], by decide⟩

def secondData : SockAddr × Udp.Action :=
  (examplePeer, .receive exampleHost ⟨(dataPkg (secondPack.fragmentAt 0) 1).bytes, fun _ => 0⟩)

/-- The second fragment arrives early and again, the first arrives twice, the third is lost. -/
def lossyMoves : List (SockAddr × Udp.Action) :=
  [(exampleHost, .send examplePack), (exampleHost, .send secondPack), (exampleHost, .send thirdPack),
    (exampleHost, .wake), (exampleHost, .wake), (exampleHost, .wake), exampleSyn, secondData,
    exampleData, exampleData, secondData]

theorem messages_prefix_of_steady_lossy : ∃ net,
    run (step fun _ => exampleEnv) Net.new lossyMoves = some net ∧
    (net examplePeer).messages exampleHost = [(1, [7]), (2, [8])] ∧
    (net examplePeer).messages exampleHost <+:
      ((net exampleHost).taken.filter fun pack => pack.toAddr = examplePeer ∧ pack.data ≠ []).map
        fun pack => (pack.sessionid, pack.data) := by
  have hrun : (run (step fun _ => exampleEnv) Net.new lossyMoves).map
      (fun net => (net examplePeer).messages exampleHost) = some [(1, [7]), (2, [8])] := by
    decide +kernel
  obtain ⟨net, hnet, hmessages⟩ := Option.map_eq_some_iff.mp hrun
  exact ⟨net, hnet, hmessages, messages_prefix_of_steady hnet (along_of_check (by decide +kernel))⟩

/-- The SYN and the fragment arrive a second time, and so does the message. -/
theorem messages_repeated : ∃ net,
    run (step fun _ => exampleEnv) Net.new (exampleMoves ++ [exampleSyn, exampleData]) = some net ∧
    (net examplePeer).messages exampleHost = [(1, [7]), (1, [7])] ∧
    ¬ (net examplePeer).messages exampleHost <+:
      ((net exampleHost).taken.filter fun pack => pack.toAddr = examplePeer ∧ pack.data ≠ []).map
        fun pack => (pack.sessionid, pack.data) := by
  have hrun : (run (step fun _ => exampleEnv) Net.new
      (exampleMoves ++ [exampleSyn, exampleData])).map (fun net =>
        ((net exampleHost).taken, (net examplePeer).messages exampleHost)) =
          some ([examplePack], [(1, [7]), (1, [7])]) := by decide +kernel
  obtain ⟨net, hnet, heq⟩ := Option.map_eq_some_iff.mp hrun
  obtain ⟨htaken, hmessages⟩ := Prod.mk.inj heq
  refine ⟨net, hnet, hmessages, ?_⟩
  rw [htaken, hmessages]
  decide

/-- Every session reported as finished has been raised whole at the peer before. -/
theorem finishes_delivered {envs : SockAddr → Env} {moves : List (SockAddr × Udp.Action)} {net : Net}
    (hrun : run (step envs) Net.new moves = some net) (a b : SockAddr) :
    ∃ packs : List SendPack, packs.Subperm ((net a).taken.filter (·.toAddr = b)) ∧
      (net a).finishes b = packs.map (·.sessionid) ∧
      ∀ pack ∈ packs, (pack.sessionid, pack.data) ∈ (net b).messages a := by
  have hlink := @run_invariant _ _ (step envs) (fun _ _ => True) (Link a b False)
    (fun h _ hstep => h.step False.elim hstep) _ _ _ (.new a b False)
    (along_of_forall fun _ _ => trivial) hrun
  obtain ⟨m, r, high, done, hlinked⟩ := hlink.linked
  obtain ⟨packs, hsub, hsids, hdelivered⟩ := owners hlinked.finished.nodup hlinked.finished.last
  refine ⟨packs, hsub, hlinked.finished.sids.trans hsids.symm, fun pack hpack => ?_⟩
  obtain ⟨k, hk, hmem⟩ := hdelivered pack hpack
  refine hlinked.receiving.delivered _ ((messages_take ?_).subset hmem)
  exact hlinked.sending.low k hk

/-- The answer of the peer to a packet, as it arrives. -/
def exampleAck (p : UdpPkg) : SockAddr × Udp.Action :=
  (exampleHost, .receive examplePeer ⟨(UdpPkg.stamp { p with
    offset := p.offset + p.datalen.setWidth 32, datalen := 0 } PACKAGE_ACK p.seq).bytes, fun _ => 0⟩)

theorem finishes_delivered_oneByte : ∃ net,
    run (step fun _ => exampleEnv) Net.new (exampleMoves ++
      [exampleAck synPkg, exampleAck (dataPkg (examplePack.fragmentAt 0) 0)]) = some net ∧
    (net exampleHost).finishes examplePeer = [1] ∧
    ∃ packs : List SendPack,
      packs.Subperm ((net exampleHost).taken.filter (·.toAddr = examplePeer)) ∧
      (net exampleHost).finishes examplePeer = packs.map (·.sessionid) ∧
      ∀ pack ∈ packs, (pack.sessionid, pack.data) ∈ (net examplePeer).messages exampleHost := by
  have hrun : (run (step fun _ => exampleEnv) Net.new (exampleMoves ++
      [exampleAck synPkg, exampleAck (dataPkg (examplePack.fragmentAt 0) 0)])).map
        (fun net => (net exampleHost).finishes examplePeer) = some [1] := by decide +kernel
  obtain ⟨net, hnet, hfinishes⟩ := Option.map_eq_some_iff.mp hrun
  exact ⟨net, hnet, hfinishes, finishes_delivered hnet exampleHost examplePeer⟩

end Net

end Hardcoder.UDP
