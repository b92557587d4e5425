import Hardcoder.UdpWindow

/-! Senders, receivers and timers belong to the peer they are kept under, and a sender
holds packets of its own kind only. -/

namespace Hardcoder.UDP
open Stream Runs Relation
set_option autoImplicit false

/-- The type of the event's packet. -/
def EventId.type : EventId → BitVec 8
  | .fin _ => PACKAGE_FIN
  | .syn _ => PACKAGE_SYN
  | .slot _ _ => PACKAGE_DATA

/-- No FIN is ever sent. -/
structure Sender.Ok (ss : Sender) (addr : SockAddr) : Prop where
  toaddr : ss.toaddr = addr
  status : ss.status = .SYN_SENT ∨ ss.status = .OPEN
  syn : ss.synTimeoutEvent.udpPkg = some (UdpPkg.new.stamp PACKAGE_SYN 100000)
  fin : ss.finTimeoutEvent.udpPkg = none
  data : ∀ i p, ss.packets i = some p → p.Stamped ∧ p.type = PACKAGE_DATA

namespace Sender

theorem Ok.retimed {ss ss' : Sender} {addr : SockAddr} (hok : ss.Ok addr)
    (h : ss.Retimed ss') : ss'.Ok addr := by
  have hsyn : ss'.synTimeoutEvent.udpPkg = ss.synTimeoutEvent.udpPkg := h.same (.syn addr)
  have hfin : ss'.finTimeoutEvent.udpPkg = ss.finTimeoutEvent.udpPkg := h.same (.fin addr)
  exact ⟨h.toaddr.trans hok.toaddr, h.status ▸ hok.status, hsyn.trans hok.syn, hfin.trans hok.fin,
    h.same.packets ▸ hok.data⟩

theorem Ok.packet {ss : Sender} {addr : SockAddr} (hok : ss.Ok addr) {e : EventId} {p : UdpPkg}
    (hp : (ss.event e).udpPkg = some p) : p.Stamped ∧ p.type = e.type ∧ p.type ≠ PACKAGE_ACK := by
  cases e with
  | fin a => cases hok.fin.symm.trans hp
  | syn a =>
    obtain rfl := Option.some.inj (hok.syn.symm.trans hp)
    exact ⟨UdpPkg.stamped_stamp _ _ _, rfl, by rw [UdpPkg.stamp_type]; decide⟩
  | slot a i =>
    obtain ⟨hstamped, htype⟩ := hok.data i p hp
    exact ⟨hstamped, htype, by rw [htype]; decide⟩

theorem ok_new (addr : SockAddr) : (Udp.newSender addr).Ok addr :=
  ⟨rfl, .inl rfl, rfl, rfl, fun i p hp => by cases hp⟩

theorem toaddr_updateEvent (ss : Sender) {f : TimeoutEvent → TimeoutEvent} (e : EventId)
    (hf : (f (ss.event e)).toaddr = (ss.event e).toaddr) (x : EventId) :
    ((ss.updateEvent e f).event x).toaddr = (ss.event x).toaddr :=
  ss.field_updateEvent f TimeoutEvent.toaddr e hf x

section Number
variable (ss : Sender) (i : Slot) (pkg : UdpPkg) (queue : List UdpPkg)

theorem packets_number : (ss.number i pkg queue).packets =
    Function.update ss.packets i (some (pkg.stamp PACKAGE_DATA (ss.seq + 1))) := by
  funext j
  by_cases hj : j = i
  · subst hj
    simp [packets, number]
  · simp [packets, number, Function.update_of_ne hj]

/-- Numbering a packet writes the packet and the tries of its event only. -/
theorem field_number {β : Type} (field : TimeoutEvent → β)
    (hfield : ∀ ev n p, field { ev with tryCount := n, udpPkg := p } = field ev) (e : EventId) :
    field ((ss.number i pkg queue).event e) = field (ss.event e) := by
  cases e with
  | fin a => rfl
  | syn a => rfl
  | slot a j =>
    by_cases hj : j = i
    · subst hj
      simp only [event, number, Function.update_self]
      exact hfield _ _ _
    · simp only [event, number, Function.update_of_ne hj]

theorem toaddr_number (e : EventId) :
    ((ss.number i pkg queue).event e).toaddr = (ss.event e).toaddr :=
  ss.field_number i pkg queue TimeoutEvent.toaddr (fun _ _ _ => rfl) e

theorem Ok.number {ss : Sender} {addr : SockAddr} (hok : ss.Ok addr) :
    (ss.number i pkg queue).Ok addr := by
  refine ⟨hok.toaddr, hok.status, hok.syn, hok.fin, fun j p hp => ?_⟩
  rw [packets_number] at hp
  by_cases hj : j = i
  · subst hj
    rw [Function.update_self] at hp
    obtain rfl := Option.some.inj hp
    exact ⟨UdpPkg.stamped_stamp _ _ _, rfl⟩
  · rw [Function.update_of_ne hj] at hp
    exact hok.data j p hp

end Number

/-- The sender with a slot given back. -/
def clear (ss : Sender) (addr : SockAddr) (i : Slot) : Sender :=
  ss.updateEvent (.slot addr i) fun ev => { ev with udpPkg := none }

theorem packets_clear (ss : Sender) (addr : SockAddr) (i : Slot) :
    (ss.clear addr i).packets = Function.update ss.packets i none := by
  funext j
  by_cases hj : j = i
  · subst hj
    simp [packets, clear, updateEvent]
  · simp [packets, clear, updateEvent, Function.update_of_ne hj]

theorem toaddr_clear (ss : Sender) (addr : SockAddr) (i : Slot) (e : EventId) :
    ((ss.clear addr i).event e).toaddr = (ss.event e).toaddr :=
  ss.toaddr_updateEvent _ rfl e

theorem Ok.clear {ss : Sender} {addr : SockAddr} (hok : ss.Ok addr) (i : Slot) :
    (ss.clear addr i).Ok addr := by
  refine ⟨hok.toaddr, hok.status, hok.syn, hok.fin, fun j p hp => ?_⟩
  rw [packets_clear] at hp
  by_cases hj : j = i
  · subst hj
    rw [Function.update_self] at hp
    cases hp
  · rw [Function.update_of_ne hj] at hp
    exact hok.data j p hp

end Sender

namespace Udp

theorem eventOf_addr {ss : Sender} {addr : SockAddr} {pkg : UdpPkg} {e : EventId}
    (h : eventOf ss addr pkg = .ok e) : e.addr = addr := by
  unfold eventOf at h
  split at h
  · cases h
    rfl
  · split at h
    · cases h
      rfl
    · split at h
      · split at h
        · cases h
        · cases h
          rfl
      · cases h

theorem modifySender_eq_set (u : Udp) {addr : SockAddr} {ss : Sender} (f : Sender → Sender)
    (hss : u.m_mapSender.get? addr = some ss) :
    u.modifySender addr f = { u with m_mapSender := u.m_mapSender.set addr (f ss) } := by
  simp [modifySender, hss]

structure Consistent (u : Udp) : Prop where
  senders : ∀ addr ss, u.m_mapSender.get? addr = some ss → ss.Ok addr
  addressed : ∀ e ∈ u.m_eventTimerList, (u.event e).toaddr = e.addr
  receivers : ∀ addr rs, u.m_mapReceiver.get? addr = some rs → rs.fromaddr = addr

theorem consistent_new : Consistent Udp.new := by
  refine ⟨fun addr ss hss => ?_, fun e he => ?_, fun addr rs hrs => ?_⟩
  · cases hss
  · cases he
  · cases hrs

namespace Consistent
variable {u v : Udp}

theorem congr (h : Consistent u) (hsender : v.m_mapSender = u.m_mapSender)
    (hlist : v.m_eventTimerList = u.m_eventTimerList)
    (hreceiver : v.m_mapReceiver = u.m_mapReceiver) : Consistent v := by
  refine ⟨fun addr ss hss => h.senders addr ss (hsender ▸ hss), fun e he => ?_,
    fun addr rs hrs => h.receivers addr rs (hreceiver ▸ hrs)⟩
  have hevent : v.event e = u.event e := by rw [event, event, hsender]
  rw [hevent]
  exact h.addressed e (hlist ▸ he)

theorem toaddr_of_mem (h : Consistent u) {addr : SockAddr} {ss : Sender} {e : EventId}
    (hss : u.m_mapSender.get? addr = some ss) (he : e ∈ u.m_eventTimerList)
    (haddr : e.addr = addr) : (ss.event e).toaddr = addr := by
  subst haddr
  have haddressed := h.addressed e he
  rwa [event_eq u hss] at haddressed

theorem set (h : Consistent u) {addr : SockAddr} {ss : Sender} (hok : ss.Ok addr)
    (haddressed : ∀ e ∈ u.m_eventTimerList, e.addr = addr → (ss.event e).toaddr = addr) :
    Consistent { u with m_mapSender := u.m_mapSender.set addr ss } := by
  refine ⟨fun a s hs => ?_, fun e he => ?_, h.receivers⟩
  · by_cases ha : a = addr
    · subst ha
      rw [SortedMap.get?_set_self] at hs
      obtain rfl := Option.some.inj hs
      exact hok
    · exact h.senders a s (SortedMap.get?_set_of_ne _ ha _ ▸ hs)
  · by_cases ha : e.addr = addr
    · rw [event, ha, SortedMap.get?_set_self]
      exact haddressed e he ha
    · rw [event, SortedMap.get?_set_of_ne _ ha]
      exact h.addressed e he

theorem modifySender (h : Consistent u) {addr : SockAddr} {ss : Sender} {f : Sender → Sender}
    (hss : u.m_mapSender.get? addr = some ss) (hok : (f ss).Ok addr)
    (htoaddr : ∀ e, ((f ss).event e).toaddr = (ss.event e).toaddr) :
    Consistent (u.modifySender addr f) := by
  rw [modifySender_eq_set u f hss]
  refine h.set hok fun e he ha => ?_
  rw [htoaddr]
  exact h.toaddr_of_mem hss he ha

theorem schedule (h : Consistent u) (env : Env) {e : EventId} {ss : Sender}
    (hss : u.m_mapSender.get? e.addr = some ss) : Consistent (u.schedule env e.addr e) := by
  refine ⟨fun a s hs => ?_, fun x hx => ?_, ?_⟩
  · obtain ⟨s₀, hs₀, hretimed⟩ := get?_schedule env u e.addr e hss hs
    exact (h.senders a s₀ hs₀).retimed hretimed
  · by_cases hxe : x = e
    · subst hxe
      rw [schedule_event_self env u _ _ hss]
      rfl
    · rw [schedule_event_of_ne env u _ _ hxe]
      refine h.addressed x (List.count_pos_iff.mp ?_)
      have hcount := count_schedule env u e.addr e x
      rw [if_neg (Ne.symm hxe)] at hcount
      have := List.count_pos_iff.mpr hx
      omega
  · rw [(schedule_sendSide env u e.addr e).m_mapReceiver]
    exact h.receivers

theorem delete (h : Consistent u) (e : EventId) : Consistent (u.deleteTimeoutEvent e) :=
  ⟨h.senders, fun x hx => h.addressed x (List.mem_of_mem_erase hx), h.receivers⟩

theorem finish (h : Consistent u) (ret : Int) : Consistent (finish (u, ret)) := by
  unfold Udp.finish
  split
  · exact h.congr rfl rfl rfl
  · exact h

theorem sendPackage (h : Consistent u) (env : Env) (addr : SockAddr) (pkg : UdpPkg) :
    Consistent (u.sendPackage env addr pkg).1 := by
  have htransmit : Consistent (u.transmit env addr pkg).1 := h.congr rfl rfl rfl
  unfold Udp.sendPackage
  dsimp only
  split
  · exact htransmit
  · split
    · exact htransmit
    · rename_i ss hss
      split
      · exact htransmit
      · rename_i e he
        obtain rfl := eventOf_addr he
        exact htransmit.schedule env hss

theorem getSender (h : Consistent u) (env : Env) (addr : SockAddr) :
    Consistent (u.getSender env addr) := by
  unfold Udp.getSender
  cases hss : u.m_mapSender.get? addr with
  | some ss => exact h
  | none =>
    refine (h.set (Sender.ok_new addr) fun e he ha => ?_).sendPackage env _ _
    -- without a sender every event reads as a fresh one, as it does in a fresh sender
    have haddressed := h.addressed e he
    rw [event, ha, hss] at haddressed
    cases e <;> exact haddressed

theorem sendStep (h : Consistent u) {env : Env} (hstep : SendStep env u v) : Consistent v := by
  cases hstep with
  | create addr => exact h.getSender env addr
  | take hqueue hss hempty =>
    have hok := h.senders _ _ hss
    refine (h.modifySender hss ?_ fun e => ?_).congr rfl rfl rfl
    · exact ⟨hok.toaddr, hok.status, hok.syn, hok.fin, hok.data⟩
    · cases e <;> rfl
  | number hnumber =>
    obtain ⟨hss, hqueue, hslot⟩ := hnumber
    refine (h.set ((h.senders _ _ hss).number _ _ _) fun e he ha => ?_).sendPackage env _ _
    rw [Sender.toaddr_number]
    exact h.toaddr_of_mem hss he ha

end Consistent

section Timeout
variable (env : Env) (u : Udp) (e : EventId)

/-- What `processTimeout` does with an event of the list. -/
inductive Fired : Udp × Int → Prop where
  | stop : Fired (u, -1)
  | report {ss : Sender} {p : UdpPkg} (hss : u.m_mapSender.get? e.addr = some ss)
      (hp : (ss.event e).udpPkg = some p) (hcurrent : isCurrent ss (ss.event e) p e = true)
      (htries : CONST_MAXRETRANS ≤ (ss.event e).tryCount) :
      Fired ({ u with raised := u.raised ++ [.timeout e.addr p.sessionid] }, 0)
  | retry {ss : Sender} {p : UdpPkg} (hss : u.m_mapSender.get? e.addr = some ss)
      (hp : (ss.event e).udpPkg = some p) (hcurrent : isCurrent ss (ss.event e) p e = true) :
      Fired ((u.modifyEvent e fun ev =>
        { ev with tryCount := ev.tryCount + 1, udpPkg := some p }).sendPackage env e.addr p)

variable {u e}

theorem processTimeout_cases (h : Consistent u) (he : e ∈ u.m_eventTimerList) :
    Fired env u e (u.processTimeout env e) := by
  have htoaddr := h.addressed e he
  unfold processTimeout
  dsimp only
  rw [htoaddr]
  split
  · rename_i ss p hss hp
    rw [event_eq u hss] at hp ⊢
    split
    · exact .stop
    · rename_i hcurrent
      have hcurrent := Bool.of_not_eq_false hcurrent
      split
      · rename_i htries
        exact .report hss hp hcurrent htries
      · -- the packet was stamped before and stays the same
        rw [((h.senders _ _ hss).packet hp).1]
        exact .retry hss hp hcurrent
  · exact .stop

theorem Consistent.retry (h : Consistent u) {ss : Sender} {p : UdpPkg}
    (hss : u.m_mapSender.get? e.addr = some ss) (hp : (ss.event e).udpPkg = some p) :
    Consistent (u.modifyEvent e fun ev =>
      { ev with tryCount := ev.tryCount + 1, udpPkg := some p }) := by
  have hretimed := ss.updateEvent_retimed (fun ev =>
    { ev with tryCount := ev.tryCount + 1, udpPkg := some p }) e hp.symm
  exact h.modifySender hss ((h.senders _ _ hss).retimed hretimed) (Sender.toaddr_updateEvent ss e rfl)

theorem Consistent.fire (h : Consistent u) (he : e ∈ u.m_eventTimerList) :
    Consistent (u.fire env e) := by
  have hfired := processTimeout_cases env h he
  unfold Udp.fire
  generalize u.processTimeout env e = r at hfired
  cases hfired with
  | stop => exact (h.delete e).finish _
  | @report ss p hss hp hcurrent htries =>
    have hreport : Consistent { u with raised := u.raised ++ [.timeout e.addr p.sessionid] } :=
      h.congr rfl rfl rfl
    exact (hreport.delete e).finish _
  | retry hss hp hcurrent => exact (((h.retry hss hp).sendPackage env _ _).delete e).finish _

end Timeout

end Udp

end Hardcoder.UDP
