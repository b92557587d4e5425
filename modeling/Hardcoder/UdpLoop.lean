import Hardcoder.Udp
import Hardcoder.Lib.Runs

/-! What the pieces of the UDP event loop leave unchanged, and the induction over the
passes of `checkSendQueue`. -/

namespace Hardcoder.UDP
open Stream Relation
set_option autoImplicit false

namespace Udp
variable (env : Env)

section Senders
variable (u : Udp) {addr b : SockAddr} {ss : Sender} (f : Sender → Sender)

theorem modifySender_eq (addr : SockAddr) :
    u.modifySender addr f = { u with m_mapSender := (u.modifySender addr f).m_mapSender } := by
  unfold modifySender
  split <;> rfl

@[simp] theorem modifySender_m_eventTimerList (addr : SockAddr) :
    (u.modifySender addr f).m_eventTimerList = u.m_eventTimerList := by
  rw [modifySender_eq]

@[simp] theorem modifySender_sent (addr : SockAddr) : (u.modifySender addr f).sent = u.sent := by
  rw [modifySender_eq]

@[simp] theorem modifySender_taken (addr : SockAddr) : (u.modifySender addr f).taken = u.taken := by
  rw [modifySender_eq]

theorem get?_modifySender_self (h : u.m_mapSender.get? addr = some ss) :
    (u.modifySender addr f).m_mapSender.get? addr = some (f ss) := by
  simp [modifySender, h]

theorem get?_modifySender_of_ne (h : b ≠ addr) :
    (u.modifySender addr f).m_mapSender.get? b = u.m_mapSender.get? b := by
  unfold modifySender
  split
  · rfl
  · exact SortedMap.get?_set_of_ne _ h _

end Senders

/-- The messages raised for a peer with their session ids, in order. -/
def messages (u : Udp) (addr : SockAddr) : List (BitVec 64 × List UInt8) :=
  u.raised.filterMap fun
    | .data addr' sessionid data => if addr' = addr then some (sessionid, data) else none
    | _ => none

/-- What `recvfrom` stores: at most a whole struct. -/
def received (d : Delivery UInt8) : Delivery UInt8 := ⟨d.bytes.take UdpPkg.size, d.beyond⟩

/-- The receiving side stays as it was. -/
structure SendSide (u u' : Udp) : Prop where
  m_mapReceiver : u'.m_mapReceiver = u.m_mapReceiver
  messages : u'.messages = u.messages
  accesses : u'.accesses = u.accesses

namespace SendSide

theorem refl (u : Udp) : SendSide u u := ⟨rfl, rfl, rfl⟩

theorem trans {u v w : Udp} (h : SendSide u v) (h' : SendSide v w) : SendSide u w :=
  ⟨h'.1.trans h.1, h'.2.trans h.2, h'.3.trans h.3⟩

end SendSide

theorem modifySender_sendSide (u : Udp) (addr : SockAddr) (f : Sender → Sender) :
    SendSide u (u.modifySender addr f) := by
  rw [modifySender_eq]
  exact ⟨rfl, rfl, rfl⟩

theorem schedule_sendSide (u : Udp) (addr : SockAddr) (e : EventId) :
    SendSide u (u.schedule env addr e) :=
  have h := modifySender_sendSide { u with ticks := u.ticks + 1 } e.addr fun ss =>
    ss.updateEvent e fun ev =>
      { ev with toaddr := addr, timeout := env.clock u.ticks + env.m_timeoutms }
  ⟨h.1, h.2, h.3⟩

theorem sendPackage_sendSide (u : Udp) (addr : SockAddr) (pkg : UdpPkg) :
    SendSide u (u.sendPackage env addr pkg).1 := by
  have htransmit : SendSide u (u.transmit env addr pkg).1 := ⟨rfl, rfl, rfl⟩
  unfold sendPackage
  dsimp only
  split
  · exact htransmit
  · split
    · exact htransmit
    · split
      · exact htransmit
      · exact htransmit.trans (schedule_sendSide env _ addr _)

theorem getSender_sendSide (u : Udp) (addr : SockAddr) : SendSide u (u.getSender env addr) := by
  unfold getSender
  split
  · exact .refl u
  · have h := sendPackage_sendSide env
      { u with m_mapSender := u.m_mapSender.set addr (newSender addr) } addr
      (UdpPkg.new.stamp PACKAGE_SYN 100000)
    exact ⟨h.1, h.2, h.3⟩

theorem processTimeout_sendSide (u : Udp) (e : EventId) : SendSide u (u.processTimeout env e).1 := by
  unfold processTimeout
  dsimp only
  split
  · split
    · exact .refl u
    · split
      · refine ⟨rfl, ?_, rfl⟩
        funext addr
        simp [messages]
      · exact (modifySender_sendSide u _ _).trans (sendPackage_sendSide env _ _ _)
  · exact .refl u

theorem fire_sendSide (u : Udp) (e : EventId) : SendSide u (u.fire env e) := by
  have h := processTimeout_sendSide env u e
  unfold fire finish
  dsimp only
  split <;> exact ⟨h.1, h.2, h.3⟩

theorem receiveAck_sendSide (u : Udp) (sender : SockAddr) (p : UdpPkg) :
    SendSide u (u.receiveAck sender p) := by
  unfold receiveAck
  split
  · exact .refl u
  · split
    · split
      · exact .refl u
      · exact ⟨rfl, rfl, rfl⟩
    · split
      · have h := modifySender_sendSide (u.deleteTimeoutEvent (.syn sender)) sender
          fun ss => { ss with status := .OPEN }
        exact ⟨h.1, h.2, h.3⟩
      · exact .refl u
    · split
      · exact .refl u
      · rename_i i _
        have h := modifySender_sendSide (u.deleteTimeoutEvent (.slot sender i)) sender
          fun ss => ss.updateEvent (.slot sender i) fun ev => { ev with udpPkg := none }
        dsimp only
        split
        · refine ⟨h.1, ?_, h.3⟩
          rw [← show (u.deleteTimeoutEvent (.slot sender i)).messages = u.messages from rfl, ← h.2]
          funext addr
          simp [messages, modifyEvent, EventId.addr]
        · exact ⟨h.1, h.2, h.3⟩
    · exact .refl u

/-! ### `checkSendQueue` as a run of small steps -/

/-- The packet at the front of a sender's queue gets a number and a slot. -/
inductive Number : Udp → Udp → Prop where
  | pass (u : Udp) {addr : SockAddr} {ss : Sender} {pkg : UdpPkg} {queue : List UdpPkg} {i : Slot}
      (hss : u.m_mapSender.get? addr = some ss) (hqueue : ss.dataQueue = pkg :: queue)
      (hslot : checkEmptyWindow ss.packets (ss.seq + 1) = some i) :
      Number u (Udp.sendPackage env
        { u with m_mapSender := u.m_mapSender.set addr (ss.number i pkg queue) } ss.toaddr
        (pkg.stamp PACKAGE_DATA (ss.seq + 1))).1

/-- What happens in `checkSendQueue`: a sender is created, a message is taken, a packet
is numbered. -/
inductive SendStep : Udp → Udp → Prop where
  | create (u : Udp) (addr : SockAddr) : SendStep u (u.getSender env addr)
  | take (u : Udp) {pack : SendPack} {rest : List SendPack} {ss : Sender}
      (hqueue : u.sendQueue = pack :: rest) (hss : u.m_mapSender.get? pack.toAddr = some ss)
      (hempty : ss.dataQueue = []) :
      SendStep u
        { u.modifySender pack.toAddr fun ss => { ss with dataQueue := pack.fragments } with
          sendQueue := rest, taken := u.taken ++ [pack] }
  | number {u u' : Udp} (h : Number env u u') : SendStep u u'

theorem fillWindow_numbers (addr : SockAddr) (fuel : Nat) :
    ∀ u : Udp, ReflTransGen (Number env) u (fillWindow env addr fuel u) := by
  induction fuel with
  | zero => exact fun u => .refl
  | succ fuel ih =>
    intro u
    rw [fillWindow]
    split
    · exact .refl
    · rename_i ss hss
      split
      · rename_i pkg queue i hqueue hslot
        exact .head (.pass u hss hqueue hslot) (ih _)
      · exact .refl

theorem fillWindows_numbers (u : Udp) : ReflTransGen (Number env) u (fillWindows env u) := by
  unfold fillWindows
  generalize u.m_mapSender.keys = keys
  induction keys generalizing u with
  | nil => exact .refl
  | cons addr keys ih => exact (fillWindow_numbers env addr _ u).trans (ih _)

theorem sendPackage_fields (u : Udp) (addr : SockAddr) (pkg : UdpPkg) :
    ∃ senders timers ticks, (u.sendPackage env addr pkg).1 =
      { (u.transmit env addr pkg).1 with
        m_mapSender := senders, m_eventTimerList := timers, ticks := ticks } := by
  unfold sendPackage schedule modifyEvent
  dsimp only
  split
  · exact ⟨_, _, _, rfl⟩
  · split
    · exact ⟨_, _, _, rfl⟩
    · split
      · exact ⟨_, _, _, rfl⟩
      · rw [modifySender_eq]
        exact ⟨_, _, _, rfl⟩

theorem sendQueue_sendPackage (u : Udp) (addr : SockAddr) (pkg : UdpPkg) :
    (u.sendPackage env addr pkg).1.sendQueue = u.sendQueue := by
  obtain ⟨_, _, _, hfields⟩ := sendPackage_fields env u addr pkg
  rw [hfields]
  rfl

theorem raised_sendPackage (u : Udp) (addr : SockAddr) (pkg : UdpPkg) :
    (u.sendPackage env addr pkg).1.raised = u.raised := by
  obtain ⟨_, _, _, hfields⟩ := sendPackage_fields env u addr pkg
  rw [hfields]
  rfl

theorem sendQueue_getSender (u : Udp) (addr : SockAddr) :
    (u.getSender env addr).sendQueue = u.sendQueue := by
  unfold getSender
  split
  · rfl
  · exact sendQueue_sendPackage env _ _ _

theorem takeFront_steps (u : Udp) : ReflTransGen (SendStep env) u (takeFront env u) := by
  unfold takeFront
  split
  · exact .refl
  · rename_i pack rest hqueue
    have hcreate : ReflTransGen (SendStep env) u (u.getSender env pack.toAddr) :=
      .single (.create u _)
    have hqueue' := (sendQueue_getSender env u pack.toAddr).trans hqueue
    dsimp only
    split
    · rename_i hany
      obtain ⟨ss, hss, hempty⟩ := (Option.any_eq_true _ _).mp hany
      exact hcreate.tail (.take _ hqueue' hss (of_decide_eq_true hempty))
    · exact hcreate

theorem checkSendQueue_steps (u : Udp) :
    ReflTransGen (SendStep env) u (checkSendQueue env u) :=
  (takeFront_steps env u).trans
    ((fillWindows_numbers env (takeFront env u)).lift id fun _ _ => .number)

theorem SendStep.sendSide {u u' : Udp} (h : SendStep env u u') : SendSide u u' := by
  cases h with
  | create addr => exact getSender_sendSide env u addr
  | take hqueue hss hempty =>
    rw [modifySender_eq]
    exact ⟨rfl, rfl, rfl⟩
  | number h =>
    obtain ⟨hss, hqueue, hslot⟩ := h
    refine SendSide.trans ?_ (sendPackage_sendSide env _ _ _)
    exact ⟨rfl, rfl, rfl⟩

theorem checkSendQueue_sendSide (u : Udp) : SendSide u (checkSendQueue env u) :=
  Runs.steps_invariant (fun h hstep => h.trans (SendStep.sendSide env hstep)) (.refl u)
    (checkSendQueue_steps env u)

theorem loopHead_sendSide (u : Udp) : SendSide u (u.loopHead env).1 :=
  have h := checkSendQueue_sendSide env { u with ticks := u.ticks + 1 }
  ⟨h.1, h.2, h.3⟩

/-! ### What a step is -/

inductive StepCase (u : Udp) : Action → Udp → Prop where
  | send (pack : SendPack) (hroom : u.sendQueue.length < queueMax) :
      StepCase u (.send pack) { u with sendQueue := u.sendQueue ++ [pack] }
  | idle (hrunning : u.running = true) (hdue : (u.loopHead env).2 = none) :
      StepCase u .wake (u.loopHead env).1
  | fire (e : EventId) (hrunning : u.running = true) (hdue : (u.loopHead env).2 = some e) :
      StepCase u .wake ((u.loopHead env).1.fire env e)
  | receive (sender : SockAddr) (d : Delivery UInt8) (hrunning : u.running = true)
      (hdue : (u.loopHead env).2 = none) :
      StepCase u (.receive sender d) (finish ((u.loopHead env).1.processReceive env sender d))

variable {env}

theorem step_cases {u u' : Udp} {a : Action} (h : u.step env a = some u') : StepCase env u a u' := by
  cases a with
  | send pack =>
    obtain ⟨hroom, h⟩ := Option.ite_none_right_eq_some.mp h
    obtain rfl := Option.some.inj h
    exact .send pack hroom
  | wake =>
    obtain ⟨hrunning, h⟩ := Option.ite_none_right_eq_some.mp h
    obtain rfl := Option.some.inj h
    cases hdue : (u.loopHead env).2 with
    | none => simpa [hdue] using StepCase.idle hrunning hdue
    | some e => simpa [hdue] using StepCase.fire e hrunning hdue
  | receive sender d =>
    obtain ⟨hrunning, h⟩ := Option.ite_none_right_eq_some.mp h
    cases hdue : (u.loopHead env).2 with
    | none =>
      rw [hdue] at h
      obtain rfl := Option.some.inj h
      exact .receive sender d hrunning hdue
    | some e =>
      rw [hdue] at h
      cases h

theorem finish_sendSide (r : Udp × Int) : SendSide r.1 (finish r) := by
  unfold finish
  split <;> exact ⟨rfl, rfl, rfl⟩

end Udp

end Hardcoder.UDP
