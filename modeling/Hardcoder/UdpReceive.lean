import Hardcoder.UdpConsistent

/-! What a received datagram changes, and what it leaves as it was. -/

namespace Hardcoder.UDP
open Stream Runs
set_option autoImplicit false

/-- The answer to a packet: its number, its session and how far it reaches. -/
structure UdpPkg.Acks (ack p : UdpPkg) : Prop where
  type : ack.type = PACKAGE_ACK
  seq : ack.seq = p.seq
  sessionid : ack.sessionid = p.sessionid
  totallen : ack.totallen = p.totallen
  offset : ack.offset = p.offset + if p.type = PACKAGE_DATA then p.datalen.setWidth 32 else 0

namespace Udp

/-- A packet of another type than ACK changes the receiver of its peer and is answered
at most. -/
structure ReceiveSide (sender : SockAddr) (p : UdpPkg) (u u' : Udp) : Prop where
  m_mapSender : u'.m_mapSender = u.m_mapSender
  m_eventTimerList : u'.m_eventTimerList = u.m_eventTimerList
  taken : u'.taken = u.taken
  receivers : ∀ a ≠ sender, u'.m_mapReceiver.get? a = u.m_mapReceiver.get? a
  fromaddr : ∀ rs, u'.m_mapReceiver.get? sender = some rs → rs.fromaddr = sender
  raised : ∃ new, u'.raised = u.raised ++ new ∧
    ∀ x ∈ new, ∃ data, x = .data sender p.sessionid data
  sent : ∀ x ∈ u'.sent, x ∈ u.sent ∨ ∃ ack : UdpPkg, ack.Acks p ∧ x = (sender, ack.bytes)

section Receive
variable (env : Env) {u : Udp} {sender : SockAddr} {p : UdpPkg}

theorem sendAck_eq (u : Udp) (sender : SockAddr) (p : UdpPkg) :
    u.sendAck env sender p = u.transmit env sender (p.stamp PACKAGE_ACK p.seq) :=
  sendPackage_ack env rfl

theorem mem_sent_transmit {addr : SockAddr} {pkg : UdpPkg} {x : SockAddr × List UInt8}
    (hx : x ∈ (u.transmit env addr pkg).1.sent) : x ∈ u.sent ∨ x = (addr, pkg.bytes) := by
  unfold transmit at hx
  dsimp only at hx
  split at hx
  · exact (List.mem_append.mp hx).imp_right List.mem_singleton.mp
  · exact .inl hx

theorem mem_sent_sendPackage {addr : SockAddr} {pkg : UdpPkg} {x : SockAddr × List UInt8}
    (hx : x ∈ (u.sendPackage env addr pkg).1.sent) : x ∈ u.sent ∨ x = (addr, pkg.bytes) := by
  obtain ⟨_, _, _, hfields⟩ := sendPackage_fields env u addr pkg
  rw [hfields] at hx
  exact mem_sent_transmit env hx

theorem sent_sendPackage {addr : SockAddr} {pkg : UdpPkg} {x : SockAddr × List UInt8}
    (hx : x ∈ u.sent) : x ∈ (u.sendPackage env addr pkg).1.sent := by
  obtain ⟨_, _, _, hfields⟩ := sendPackage_fields env u addr pkg
  rw [hfields]
  unfold transmit
  dsimp only
  split
  · exact List.mem_append_left _ hx
  · exact hx

theorem taken_sendPackage (addr : SockAddr) (pkg : UdpPkg) :
    (u.sendPackage env addr pkg).1.taken = u.taken := by
  obtain ⟨_, _, _, hfields⟩ := sendPackage_fields env u addr pkg
  rw [hfields]
  rfl

theorem get?_sendPackage (addr : SockAddr) (pkg : UdpPkg) (b : SockAddr) :
    Option.Rel Sender.Retimed (u.m_mapSender.get? b)
      ((u.sendPackage env addr pkg).1.m_mapSender.get? b) := by
  have hrefl : Option.Rel Sender.Retimed (u.m_mapSender.get? b) (u.m_mapSender.get? b) := by
    cases u.m_mapSender.get? b with
    | none => exact .none
    | some ss => exact .some (.refl ss)
  unfold sendPackage
  dsimp only
  split
  · exact hrefl
  · split
    · exact hrefl
    · rename_i ss hss
      split
      · exact hrefl
      · rename_i e he
        obtain rfl := eventOf_addr he
        by_cases hb : b = e.addr
        · subst hb
          obtain ⟨ss', hss', hretimed⟩ :=
            get?_schedule_self env (u.transmit env e.addr pkg).1 e.addr e hss
          have hss : u.m_mapSender.get? e.addr = some ss := hss
          rw [hss, hss']
          exact .some hretimed
        · rw [get?_schedule_of_ne env _ e.addr e hb]
          exact hrefl

theorem ReceiveSide.then_ack {v : Udp} {q : UdpPkg} (h : ReceiveSide sender p u v)
    (hack : (q.stamp PACKAGE_ACK q.seq).Acks p) :
    ReceiveSide sender p u (v.sendAck env sender q).1 := by
  rw [sendAck_eq]
  refine ⟨h.m_mapSender, h.m_eventTimerList, h.taken, h.receivers, h.fromaddr, h.raised,
    fun x hx => ?_⟩
  rcases mem_sent_transmit env hx with hx | rfl
  · exact h.sent x hx
  · exact .inr ⟨_, hack, rfl⟩

theorem ReceiveSide.refl (hrs : ∀ rs, u.m_mapReceiver.get? sender = some rs → rs.fromaddr = sender) :
    ReceiveSide sender p u u :=
  ⟨rfl, rfl, rfl, fun _ _ => rfl, hrs, ⟨[], (List.append_nil _).symm, by simp⟩, fun _ => .inl⟩

theorem ReceiveSide.setReceiver {v : Udp} (h : ReceiveSide sender p u v) {rs : Receiver}
    (hrs : rs.fromaddr = sender) : ReceiveSide sender p u (v.setReceiver sender rs) := by
  refine ⟨h.m_mapSender, h.m_eventTimerList, h.taken, fun a ha => ?_, fun rs' hrs' => ?_, h.raised,
    h.sent⟩
  · rw [← h.receivers a ha]
    exact SortedMap.get?_set_of_ne _ ha _
  · rw [Udp.setReceiver, SortedMap.get?_set_self] at hrs'
    obtain rfl := Option.some.inj hrs'
    exact hrs

theorem ReceiveSide.cleanReceiver {v : Udp} (h : ReceiveSide sender p u v) {rs : Receiver}
    (hrs : rs.fromaddr = sender) : ReceiveSide sender p u (v.cleanReceiver rs) := by
  subst hrs
  refine ⟨h.m_mapSender, h.m_eventTimerList, h.taken, fun a ha => ?_, fun rs' hrs' => ?_, h.raised,
    h.sent⟩
  · rw [← h.receivers a ha]
    exact SortedMap.get?_erase_of_ne _ ha
  · rw [Udp.cleanReceiver, SortedMap.get?_erase_self] at hrs'
    cases hrs'

theorem receiveSyn_side (h : Consistent u) (htype : p.type = PACKAGE_SYN) :
    ReceiveSide sender p u (u.receiveSyn env sender p).1 := by
  have hrefl : ReceiveSide sender p u u := .refl (h.receivers sender)
  have hack : (UdpPkg.stamp { p with datalen := 0 } PACKAGE_ACK p.seq).Acks p :=
    ⟨rfl, rfl, rfl, rfl, by simp [UdpPkg.stamp, htype, PACKAGE_SYN, PACKAGE_DATA]⟩
  unfold receiveSyn
  cases hrs : u.m_mapReceiver.get? sender with
  | none => exact (hrefl.setReceiver rfl).then_ack env hack
  | some rs =>
    have hfrom := h.receivers sender rs hrs
    by_cases hstatus : rs.status ≠ .OPENING
    · simp only [if_pos hstatus]
      exact ((hrefl.cleanReceiver hfrom).setReceiver rfl).then_ack env hack
    · simp only [if_neg hstatus]
      refine ReceiveSide.then_ack env (hrefl.setReceiver ?_) hack
      exact hfrom

theorem dataRecv_fromaddr (rs : Receiver) (recvRet : Nat) :
    (dataRecv p recvRet rs).rs.fromaddr = rs.fromaddr := by
  unfold dataRecv
  split
  · rfl
  · dsimp only
    split <;> rfl

theorem receiveData_side (h : Consistent u) (htype : p.type = PACKAGE_DATA) (recvRet : Nat) :
    ReceiveSide sender p u (u.receiveData env sender recvRet p).1 := by
  have hrefl : ReceiveSide sender p u u := .refl (h.receivers sender)
  unfold receiveData
  cases hrs : u.m_mapReceiver.get? sender with
  | none => exact hrefl
  | some rs =>
    have hfrom := h.receivers sender rs hrs
    dsimp only
    split
    · exact hrefl
    · split
      · exact hrefl
      · refine ReceiveSide.then_ack env ?_ ⟨rfl, rfl, rfl, rfl, by simp [UdpPkg.stamp, htype]⟩
        split
        · have hfrom' := (dataRecv_fromaddr (p := p)
            { rs with status := .OPEN, expectedSeq := p.seq + 1 } recvRet).trans hfrom
          have hset := hrefl.setReceiver hfrom'
          refine ⟨hset.m_mapSender, hset.m_eventTimerList, hset.taken, hset.receivers,
            hset.fromaddr, ⟨_, rfl, fun x hx => ?_⟩, hset.sent⟩
          obtain ⟨m, -, rfl⟩ := Option.map_eq_some_iff.mp (Option.mem_toList.mp hx)
          exact ⟨m, by rw [hfrom']⟩
        · exact hrefl

theorem receiveFin_side (h : Consistent u) (htype : p.type = PACKAGE_FIN) :
    ReceiveSide sender p u (u.receiveFin env sender p).1 := by
  have hrefl : ReceiveSide sender p u u := .refl (h.receivers sender)
  have hack (datalen : BitVec 16) :
      (UdpPkg.stamp { p with datalen := datalen } PACKAGE_ACK p.seq).Acks p :=
    ⟨rfl, rfl, rfl, rfl, by simp [UdpPkg.stamp, htype, PACKAGE_FIN, PACKAGE_DATA]⟩
  unfold receiveFin
  split
  · exact hrefl.then_ack env (hack p.datalen)
  · rename_i rs hrs
    split
    · exact hrefl
    · have hacked : ReceiveSide sender p u (u.sendAck env sender { p with datalen := 0 }).1 :=
        hrefl.then_ack env (hack 0)
      exact hacked.cleanReceiver (h.receivers sender rs hrs)

theorem ReceiveSide.consistent {u' : Udp} (h : ReceiveSide sender p u u') (hu : Consistent u) :
    Consistent u' := by
  refine ⟨fun addr ss hss => hu.senders addr ss (h.m_mapSender ▸ hss), fun e he => ?_,
    fun addr rs hrs => ?_⟩
  · have hevent : u'.event e = u.event e := by rw [event, event, h.m_mapSender]
    rw [hevent]
    exact hu.addressed e (h.m_eventTimerList ▸ he)
  · by_cases haddr : addr = sender
    · subst haddr
      exact h.fromaddr rs hrs
    · exact hu.receivers addr rs (h.receivers addr haddr ▸ hrs)

/-- The packet of a slot is gone, with its timer. -/
def freeSlot (u : Udp) (addr : SockAddr) (i : Slot) : Udp :=
  (u.deleteTimeoutEvent (.slot addr i)).modifySender addr (·.clear addr i)

/-- What an ACK does. -/
inductive Acked (u : Udp) (sender : SockAddr) (p : UdpPkg) : Udp → Prop where
  | ignored : Acked u sender p u
  | opened {ss : Sender} (hss : u.m_mapSender.get? sender = some ss)
      (hstatus : ss.status = .SYN_SENT) (hseq : p.seq = 100000) :
      Acked u sender p ((u.deleteTimeoutEvent (.syn sender)).modifySender sender
        fun ss => { ss with status := .OPEN })
  | freed {ss : Sender} {i : Slot} (hss : u.m_mapSender.get? sender = some ss)
      (hstatus : ss.status = .OPEN) (hi : getWindowBySeq ss.packets p.seq = some i)
      (hmore : p.totallen ≠ p.offset) : Acked u sender p (u.freeSlot sender i)
  | finished {ss : Sender} {i : Slot} (hss : u.m_mapSender.get? sender = some ss)
      (hstatus : ss.status = .OPEN) (hi : getWindowBySeq ss.packets p.seq = some i)
      (hlast : p.totallen = p.offset) :
      Acked u sender p { u.freeSlot sender i with
        raised := (u.freeSlot sender i).raised ++ [.sessionFinish sender p.sessionid] }

theorem receiveAck_cases (h : Consistent u) : Acked u sender p (u.receiveAck sender p) := by
  unfold receiveAck
  split
  · exact .ignored
  · rename_i ss hss
    have hok := h.senders _ ss hss
    split
    · rename_i hstatus
      rcases hok.status with hs | hs <;> simp [hs] at hstatus
    · rename_i hstatus
      split
      · rename_i hseq
        rw [hok.syn, Option.any_some, decide_eq_true_eq, UdpPkg.stamp_seq] at hseq
        exact .opened hss hstatus hseq.symm
      · exact .ignored
    · rename_i hstatus
      split
      · exact .ignored
      · rename_i i hi
        dsimp only
        split
        · rename_i hlast
          exact .finished hss hstatus hi hlast
        · rename_i hmore
          exact .freed hss hstatus hi hmore
    · exact .ignored

/-- Which handler gets a packet. -/
inductive Handled (u : Udp) (sender : SockAddr) (p : UdpPkg) (recvRet : Nat) : Udp × Int → Prop where
  | ignored : Handled u sender p recvRet (u, 0)
  | syn (htype : p.type = PACKAGE_SYN) : Handled u sender p recvRet (u.receiveSyn env sender p)
  | data (htype : p.type = PACKAGE_DATA) :
      Handled u sender p recvRet (u.receiveData env sender recvRet p)
  | fin (htype : p.type = PACKAGE_FIN) : Handled u sender p recvRet (u.receiveFin env sender p)
  | ack (htype : p.type = PACKAGE_ACK) : Handled u sender p recvRet (u.receiveAck sender p, 0)

theorem processReceive_cases (u : Udp) (sender : SockAddr) (d : Delivery UInt8) :
    ∃ accesses, Handled env { u with accesses := accesses } sender (UdpPkg.decode (received d))
      (received d).bytes.length (u.processReceive env sender d) := by
  unfold processReceive
  dsimp only
  split
  · exact ⟨u.accesses, .ignored⟩
  · refine ⟨u.accesses ++ [.crc (UdpPkg.decode (received d)).pkgLen (received d).bytes.length], ?_⟩
    split
    · exact .ignored
    · split
      · rename_i htype
        exact .syn htype
      · split
        · rename_i htype
          exact .data htype
        · split
          · rename_i htype
            exact .fin htype
          · split
            · rename_i htype
              exact .ack htype
            · exact .ignored

theorem Consistent.freeSlot (h : Consistent u) {ss : Sender}
    (hss : u.m_mapSender.get? sender = some ss) (i : Slot) : Consistent (u.freeSlot sender i) :=
  (h.delete _).modifySender hss ((h.senders _ _ hss).clear i) (Sender.toaddr_clear _ sender i)

theorem Consistent.receiveAck (h : Consistent u) : Consistent (u.receiveAck sender p) := by
  have hacked := @receiveAck_cases u sender p h
  generalize u.receiveAck sender p = v at hacked
  cases hacked with
  | ignored => exact h
  | opened hss hstatus hseq =>
    have hok := h.senders _ _ hss
    refine (h.delete _).modifySender hss ⟨hok.toaddr, .inr rfl, hok.syn, hok.fin, hok.data⟩ fun e => ?_
    cases e <;> rfl
  | freed hss hstatus hi hmore => exact h.freeSlot hss _
  | finished hss hstatus hi hlast =>
    have hfreed := h.freeSlot hss
    exact (hfreed _).congr rfl rfl rfl

theorem Consistent.processReceive (h : Consistent u) (sender : SockAddr) (d : Delivery UInt8) :
    Consistent (u.processReceive env sender d).1 := by
  obtain ⟨accesses, hhandled⟩ := processReceive_cases env u sender d
  have hu : Consistent { u with accesses := accesses } := h.congr rfl rfl rfl
  generalize u.processReceive env sender d = r at hhandled
  cases hhandled with
  | ignored => exact hu
  | syn htype => exact (receiveSyn_side env hu htype).consistent hu
  | data htype => exact (receiveData_side env hu htype _).consistent hu
  | fin htype => exact (receiveFin_side env hu htype).consistent hu
  | ack htype => exact hu.receiveAck

theorem Consistent.loopHead (h : Consistent u) : Consistent (u.loopHead env).1 := by
  have hstart : Consistent { u with ticks := u.ticks + 1 } := h.congr rfl rfl rfl
  exact Runs.steps_invariant (fun hv hstep => hv.sendStep hstep) hstart (checkSendQueue_steps env _)

theorem Consistent.step (h : Consistent u) {a : Action} {u' : Udp} (hstep : u.step env a = some u') :
    Consistent u' := by
  have hhead := h.loopHead env
  cases step_cases hstep with
  | send pack hroom => exact h.congr rfl rfl rfl
  | idle hrunning hdue => exact hhead
  | fire e hrunning hdue =>
    obtain ⟨he, -⟩ := Option.filter_eq_some_iff.mp hdue
    exact hhead.fire env (List.mem_of_head? he)
  | receive sender d hrunning hdue => exact (hhead.processReceive env sender d).finish _

theorem consistent_run {acts : List Action} (h : run (step env) Udp.new acts = some u) :
    Consistent u :=
  @run_invariant _ _ (step env) (fun _ _ => True) Consistent
    (fun h _ hstep => h.step env hstep) _ _ _ consistent_new (along_of_forall fun _ _ => trivial) h

end Receive

end Udp

end Hardcoder.UDP
